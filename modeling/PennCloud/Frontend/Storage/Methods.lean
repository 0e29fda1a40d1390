import PennCloud.Frontend.Storage.Forms

/-!
# The storage service

The methods of `StorageService` (`frontend/storage/storage_service.cc`), each on the
user's name and the text of a request. A method asks the master for the worker of the
row first; then it reads what the request says, which may refuse it or throw, and then
it is one of the handlers of `PennCloud.Frontend.Storage.Service`, or a page that asks
for what is missing, or the download.

The reading does not depend on the store, so a method is given the outcome of it, and
only what it *does* with that comes after the worker (`PennCloud.served`).
-/

namespace PennCloud

open Wire Calls Text

/-! ### Replies -/

/-- What a method returns, or sends to the client itself. -/
inductive StorageReply where
  /-- The answer of a handler. -/
  | answer (a : Answer)
  /-- The page that asks for the new name of a file. -/
  | renameForm (folder oldName : Bytes)
  /-- The page that asks for the new name of a folder. -/
  | renameFolderForm (folderPath oldName : Bytes)
  /-- The page that asks where to move a file, with the folders to choose from. -/
  | moveFileForm (sourceFolder filename currentFolder : Bytes) (folders : List Bytes)
  /-- The page that asks where to move a folder. -/
  | moveFolderForm (sourceFolder currentFolder : Bytes) (folders : List Bytes)
  /-- 404: there is nothing to download. -/
  | notFound
  /-- A file, sent in chunks. -/
  | download (filename content : Bytes)
  deriving DecidableEq

section Parts

variable (baseKey : Bytes)

/-- The beginning of the methods that are not among the handlers. -/
def onWorkerFor (method : Handler StorageReply) : Handler StorageReply := do
  let worker ← lookup baseKey
  if isErr worker then return .answer .serversDown
  else method

/-- A handler as a method. -/
def answered (handler : Handler Answer) : Handler StorageReply := do
  let a ← handler
  return .answer a

/-- A method with the outcome of reading the request. -/
def served {α : Type} (parsed : Except Abort (Parsed α)) (method : α → Handler StorageReply) :
    Handler StorageReply :=
  match parsed with
  | .error e => onWorkerFor baseKey (.fail e)
  | .ok (.refused page) => onWorkerFor baseKey (return .answer (.badRequest page))
  | .ok (.found params) => method params

/-! ### Pages and the download -/

/-- The folders among the entries of a listing. -/
def listSubfolders : List Bytes → Handler (List Bytes)
  | [] => return []
  | fullPath :: entries => do
    let marker ← Get baseKey fullPath
    let folders ← listSubfolders entries
    if marker = kvFolder then return fullPath :: folders else return folders

/-- The folders that the two pages for a move offer. -/
def moveTargets (currentFolder : Bytes) : Handler (List Bytes) := do
  let text ← Get baseKey (metaCol currentFolder)
  let metadata := if isErr text then [] else text
  if metadata = [] then return []
  else listSubfolders baseKey (splitStringStorage metadata)

/-- The contents of the chunks of a file, one behind the other. The text of an error is
content like any other. -/
def chunkContents : List Bytes → Handler Bytes
  | [] => return []
  | fileChunk :: files => do
    let content ← Get baseKey (fileChunk ++ ascii "-content")
    let rest ← chunkContents files
    return content ++ rest

/-- `webStorageDownload`. -/
def webStorageDownload (folder filename : Bytes) : Handler StorageReply :=
  onWorkerFor baseKey do
    let fileMetadata ← Get baseKey (inFolder folder filename ++ ascii "-metadata")
    let fileContent ← chunkContents baseKey (splitStringStorage fileMetadata)
    if fileContent = [] then return .notFound
    else return .download filename fileContent

end Parts

/-! ### What the requests say -/

/-- The path of a request to delete. -/
def removeParams (request : Bytes) : Except Abort (Parsed Bytes) :=
  match lineQuery request with
  | none => .ok (.refused (ascii "<html><body>Missing path parameter.</body></html>"))
  | some query => (parseQueryParamsStorage query).map fun params =>
    match param params (ascii "path") with
    | none => .refused (ascii "<html><body>Missing path parameter.</body></html>")
    | some path => .found path

/-- The folder of a request to create one, and the name in it: the folder that the form
names comes before that of the query. -/
def createFolderParams (received : List Bytes) (request : Bytes) :
    Except Abort (Parsed (Bytes × Bytes)) := do
  let params ← storageParams request
  if (cut (crlf ++ crlf) request).isNone then
    return .refused (ascii "<html><body>Missing header terminator.</body></html>")
  else
    let fields ← storageForm received request
    let parentFolder := textParam fields "parentFolder"
    return .found (if parentFolder = [] then textParam params "folder" else parentFolder,
      textParam fields "newfolder")

/-! ### The methods -/

namespace StorageService

variable (username : Bytes) (fuel : ℕ) (received : List Bytes) (request : Bytes)

/-- `StorageService::list`. -/
def list : Handler StorageReply :=
  served (storageRow username) ((storageParams request).map .found) fun params =>
    answered (webStorageList (storageRow username) (textParam params "folder"))

/-- `StorageService::upload`. -/
def upload : Handler StorageReply :=
  served (storageRow username) (uploadParams received request) fun u =>
    answered (webStorageUpload (storageRow username) fuel u.folder u.filename u.fileData)

/-- `StorageService::download`. -/
def download : Handler StorageReply :=
  served (storageRow username) ((storageParams request).map .found) fun params =>
    webStorageDownload (storageRow username) (textParam params "folder")
      ((param params (ascii "filename")).getD (ascii "myfile"))

/-- `StorageService::createFolder`. -/
def createFolder : Handler StorageReply :=
  served (storageRow username) (createFolderParams received request) fun p =>
    answered (webStorageCreateFolder (storageRow username) p.1 p.2)

/-- `StorageService::remove`. -/
def remove : Handler StorageReply :=
  served (storageRow username) (removeParams request) fun path =>
    answered (webStorageDelete (storageRow username) fuel path)

/-- `StorageService::renameFile`. -/
def renameFile : Handler StorageReply :=
  if foundAtStart "POST /rename" request then
    served (storageRow username) ((storageForm received request).map .found) fun fields =>
      answered (webStorageRenameFile (storageRow username) (textParam fields "folder")
        (textParam fields "oldfilename") (textParam fields "newfilename"))
  else
    served (storageRow username) ((storageParams request).map .found) fun params =>
      onWorkerFor (storageRow username)
        (return .renameForm (textParam params "folder") (textParam params "filename"))

/-- `StorageService::renameFolder`. -/
def renameFolder : Handler StorageReply :=
  if foundAtStart "POST /renameFolder" request then
    served (storageRow username) ((storageForm received request).map .found) fun fields =>
      answered (webStorageRenameFolder (storageRow username) fuel (textParam fields "folder")
        (textParam fields "newname"))
  else
    served (storageRow username) ((storageParams request).map .found) fun params =>
      onWorkerFor (storageRow username)
        (return .renameFolderForm (textParam params "folder")
          (afterLast 47 (textParam params "folder")))

/-- `StorageService::moveFile`. -/
def moveFile : Handler StorageReply :=
  if foundAtStart "POST /moveFile" request then
    served (storageRow username) ((storageForm received request).map .found) fun fields =>
      answered (webStorageMoveFile (storageRow username) fuel (textParam fields "sourceFolder")
        (textParam fields "filename") (textParam fields "targetFolder"))
  else
    served (storageRow username) ((storageParams request).map .found) fun params =>
      onWorkerFor (storageRow username) do
        let folders ← moveTargets (storageRow username) (textParam params "currentFolder")
        return .moveFileForm (textParam params "folder") (textParam params "filename")
          (textParam params "currentFolder") folders

/-- `StorageService::moveFolder`. -/
def moveFolder : Handler StorageReply :=
  if foundAtStart "POST /moveFolder" request then
    served (storageRow username) ((storageForm received request).map .found) fun fields =>
      answered (webStorageMoveFolder (storageRow username) fuel (textParam fields "folder")
        (textParam fields "targetFolder"))
  else
    served (storageRow username) ((storageParams request).map .found) fun params =>
      onWorkerFor (storageRow username) do
        let folders ← moveTargets (storageRow username) (textParam params "currentFolder")
        return .moveFolderForm (textParam params "folder") (textParam params "currentFolder")
          folders

end StorageService

end PennCloud
