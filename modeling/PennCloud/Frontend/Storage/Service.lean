import PennCloud.Frontend.Client
import PennCloud.Frontend.Storage.Names

/-!
# The web storage

The handlers of `frontend/storage/storage_service.cc`, from where the parameters
of the request have been read. Each of them asks the master for the worker of the
user's row and then works on that row with `Get`, `Put`, `CPut` and `Delete`.

A folder is three columns and a file two and its chunks (see
`PennCloud.StorageSlot`), and none of them is written together with another: an operation
is a sequence of calls, and that the parts fit is up to the order they come in.
The listing of a folder is a text. It is read, cut at the commas, changed, joined
again and put back; and what is read may also be the text of an error, since a
`Get` that fails returns a text like any other.

The recursions over the tree of folders and the two loops that look for a free
name have no bound in the source. Here they are given a number of rounds and stop
with `PennCloud.Abort.running` when it is used up: what is said of a handler that
answers is then said for every number of rounds.

The answers are `PennCloud.Answer`, the status and the data that the page is made
of; a page that refuses is given in full. The pages that only ask for parameters
(`GET /rename` and its siblings) and the download write nothing and are left out.
-/

namespace PennCloud

open Wire Calls Text

/-! ### Texts -/

/-- The marker of a file. -/
def kvFile : Bytes := ascii "KV-File"

/-- The marker of a folder. -/
def kvFolder : Bytes := ascii "KV-Folder"

/-- The marker of a folder that was deleted. -/
def delKvFolder : Bytes := ascii "DEL KV-Folder"

/-- `splitStringStorage` at the commas. -/
def splitStringStorage (str : Bytes) : List Bytes := str.splitOn 44

/-- The loop that joins a list with commas. -/
def joinStorage (parts : List Bytes) : Bytes := [44].intercalate parts

/-- `(n)`, which is put behind a name that is taken. -/
def parenthesized (n : ℕ) : Bytes := ascii "(" ++ decimal n ++ ascii ")"

/-- The extension of a name with its dot, if anything follows the last dot. -/
def extension (name : Bytes) : Bytes :=
  if 46 ∈ name ∧ afterLast 46 name ≠ [] then 46 :: afterLast 46 name else []

/-- `ensureSameExtension`: the new name with the extension of the old one. -/
def ensureSameExtension (oldName newName : Bytes) : Bytes :=
  if extension oldName = [] then
    if 46 ∈ newName then beforeLast 46 newName else newName
  else if extension newName ≠ [] then beforeLast 46 newName ++ extension oldName
  else newName ++ extension oldName

/-! ### Answers -/

/-- What an entry of a listing is shown as. -/
inductive Kind where
  | file
  | folder
  deriving DecidableEq

/-- What the page of an answer is made of. -/
inductive Page where
  /-- The items of a folder, or the note that there are none. -/
  | listing (folder : Bytes) (items : Option (List (Bytes × Kind)))
  /-- A file was stored. The page says under which name; `path` is where. -/
  | uploaded (filename folder path : Bytes)
  /-- A folder was created. -/
  | folderCreated (name parent path : Bytes)
  /-- An item was deleted. -/
  | deleted (kind : Kind) (name parent : Bytes)
  /-- A file was renamed. -/
  | fileRenamed (oldName newName folder : Bytes)
  /-- A folder was renamed. -/
  | folderRenamed (oldName newName path : Bytes)
  /-- A file was moved. The page says into which folder; `path` is where. -/
  | fileMoved (filename target path : Bytes)
  /-- A folder was moved. -/
  | folderMoved (source target : Bytes)
  deriving DecidableEq

/-- An answer. -/
inductive Answer where
  /-- 503: no worker can be reached. -/
  | serversDown
  /-- 400, with the page. -/
  | badRequest (page : Bytes)
  /-- 200. -/
  | ok (page : Page)
  deriving DecidableEq

/-- The items that an answer shows. -/
def Answer.shown : Answer → List (Bytes × Kind)
  | .ok (.listing _ items) => items.getD []
  | _ => []

/-! ### Parts of the handlers -/

/-- The row of a user. -/
def storageRow (username : Bytes) : Bytes := username ++ ascii "-storage"

section Parts

variable (baseKey : Bytes)

/-- The beginning of every handler: without a worker there is nothing to do. -/
def onWorker (handler : Handler Answer) : Handler Answer := do
  let worker ← lookup baseKey
  if isErr worker then return .serversDown
  else handler

/-- The loop over the chunks of a file that is moved: the content of each goes to
the same number under the new path. A chunk that is shorter than the old path
throws. -/
def moveChunks (old new : Bytes) : List Bytes → Handler (List Bytes)
  | [] => return []
  | chunk :: chunks =>
    if chunk.length < old.length then Prog.fail .outOfRange
    else do
      let newChunk := new ++ chunk.drop old.length
      let content ← Get baseKey (chunk ++ ascii "-content")
      let _ ← Put baseKey (newChunk ++ ascii "-content") content
      let _ ← Delete baseKey (chunk ++ ascii "-content")
      let newChunks ← moveChunks old new chunks
      return newChunk :: newChunks

/-- The content of a file that is moved, in chunks or in one piece. -/
def moveContent (old new : Bytes) : Handler Unit := do
  let fileMeta ← Get baseKey (old ++ ascii "-metadata")
  if fileMeta ≠ [] ∧ isErr fileMeta = false then
    let newChunks ← moveChunks baseKey old new (splitStringStorage fileMeta)
    let _ ← Put baseKey (new ++ ascii "-metadata") (joinStorage newChunks)
    let _ ← Delete baseKey (old ++ ascii "-metadata")
    return ()
  else
    let content ← Get baseKey (old ++ ascii "-content")
    let _ ← Put baseKey (new ++ ascii "-content") content
    let _ ← Delete baseKey (old ++ ascii "-content")
    return ()

/-- The block that moves a file, content and marker, the same in all four places. -/
def relocateFile (old new : Bytes) : Handler Unit := do
  let _ ← moveContent baseKey old new
  let _ ← Put baseKey new kvFile
  let _ ← Delete baseKey old
  return ()

/-- The chunks of a file that is deleted. -/
def deleteChunks (absPath : Bytes) : Handler Unit := do
  let fileMeta ← Get baseKey (absPath ++ ascii "-metadata")
  if fileMeta ≠ [] ∧ isErr fileMeta = false then
    let _ ← Prog.each (fun chunk => do
      let _ ← Delete baseKey (chunk ++ ascii "-content")
      return ()) (splitStringStorage fileMeta)
    let _ ← Delete baseKey (absPath ++ ascii "-metadata")
    return ()
  else return ()

/-- `deleteRec`: everything that is not a folder is deleted as a file; a folder is
marked, its listing deleted, and then everything that was on it. -/
def deleteRec : ℕ → Bytes → Handler Unit
  | 0, _ => Prog.fail .running
  | fuel + 1, absPath => do
    let marker ← Get baseKey absPath
    if marker ≠ kvFolder then
      let _ ← deleteChunks baseKey absPath
      let _ ← Delete baseKey (absPath ++ ascii "-content")
      let _ ← Delete baseKey absPath
      return ()
    else
      let _ ← Put baseKey absPath delKvFolder
      let children ← Get baseKey (absPath ++ ascii "-metadata")
      let _ ← Delete baseKey (absPath ++ ascii "-metadata")
      if children ≠ [] ∧ isErr children = false then
        Prog.each (deleteRec fuel) (splitStringStorage children)
      else return ()

/-- `renameFolderRec`: the listing is copied as it is – it goes on naming the old
paths – and everything on it that is not a folder is moved as a file. -/
def renameFolderRec : ℕ → Bytes → Bytes → Handler Unit
  | 0, _, _ => Prog.fail .running
  | fuel + 1, oldAbs, newAbs => do
    let folderMeta ← Get baseKey (oldAbs ++ ascii "-metadata")
    let _ ← Put baseKey newAbs kvFolder
    let _ ← Put baseKey (newAbs ++ ascii "-metadata") folderMeta
    let _ ← Put baseKey oldAbs delKvFolder
    let _ ← Delete baseKey (oldAbs ++ ascii "-metadata")
    Prog.each (fun childAbs => do
      let newChildAbs := newAbs ++ 47 :: afterLast 47 childAbs
      let val ← Get baseKey childAbs
      if val = kvFolder then renameFolderRec fuel childAbs newChildAbs
      else relocateFile baseKey childAbs newChildAbs) (splitStringStorage folderMeta)

/-- Where `renameFolderMoveRec` puts a child. -/
def movedChild (newAbs child : Bytes) : Bytes :=
  if afterLast 47 child = [] then newAbs else newAbs ++ 47 :: afterLast 47 child

/-- `renameFolderMoveRec`: the listing is rewritten to the new paths, without
empty entries and without the folder itself. -/
def renameFolderMoveRec : ℕ → Bytes → Bytes → Handler Unit
  | 0, _, _ => Prog.fail .running
  | fuel + 1, oldAbs, newAbs => do
    let text ← Get baseKey (oldAbs ++ ascii "-metadata")
    let folderMeta := if isErr text then [] else text
    let oldChildren := (splitStringStorage folderMeta).filter fun s => s ≠ [] ∧ s ≠ oldAbs
    let _ ← Put baseKey newAbs kvFolder
    let _ ← Put baseKey (newAbs ++ ascii "-metadata")
      (joinStorage (oldChildren.map (movedChild newAbs)))
    let _ ← Put baseKey oldAbs delKvFolder
    let _ ← Delete baseKey (oldAbs ++ ascii "-metadata")
    Prog.each (fun childOld => do
      let marker ← Get baseKey childOld
      if marker = kvFolder then renameFolderMoveRec fuel childOld (movedChild newAbs childOld)
      else if marker = kvFile then relocateFile baseKey childOld (movedChild newAbs childOld)
      else return ()) oldChildren

/-- The loop of `moveFile` that looks for a path which is neither a file nor a
folder. -/
def freeTarget (folder leafBase leafExt : Bytes) : ℕ → ℕ → Bytes → Handler Bytes
  | 0, _, _ => Prog.fail .running
  | fuel + 1, suffix, path => do
    let existing ← Get baseKey path
    if existing = kvFile ∨ existing = kvFolder then
      freeTarget folder leafBase leafExt fuel (suffix + 1)
        (inFolder folder (leafBase ++ parenthesized suffix ++ leafExt))
    else return path

/-- The name without its extension, everything up to the last dot. -/
def leafBase (fileName : Bytes) : Bytes :=
  if 46 ∈ fileName then beforeLast 46 fileName else fileName

/-- The last dot and what follows. -/
def leafExt (fileName : Bytes) : Bytes :=
  if 46 ∈ fileName then 46 :: afterLast 46 fileName else []

/-- An entry is taken off a listing, which goes when nothing is left of it. -/
def removeEntry (folder entry : Bytes) : Handler Unit := do
  let srcMeta ← Get baseKey (metaCol folder)
  let kept := (splitStringStorage srcMeta).filter fun item => item ≠ entry
  if kept = [] then
    let _ ← Delete baseKey (metaCol folder)
    return ()
  else
    let _ ← Put baseKey (metaCol folder) (joinStorage kept)
    return ()

/-- `moveFile`; returns the path the file is then at. -/
def moveFile (fuel : ℕ) (oldAbs newFolder : Bytes) : Handler Bytes := do
  let fileName := afterLast 47 oldAbs
  let newAbs ← freeTarget baseKey newFolder (leafBase fileName) (leafExt fileName) fuel 1
    (inFolder newFolder fileName)
  let _ ← relocateFile baseKey oldAbs newAbs
  -- the text of an error is taken for a listing here
  let destMeta ← Get baseKey (metaCol newFolder)
  let _ ← Put baseKey (metaCol newFolder)
    (joinStorage (splitStringStorage destMeta ++ [newAbs]))
  let _ ← removeEntry baseKey (beforeLast 47 oldAbs) oldAbs
  return newAbs

/-- `moveFolder`. -/
def moveFolder (fuel : ℕ) (oldAbs newParent : Bytes) : Handler Unit := do
  let newAbs := inFolder newParent (afterLast 47 oldAbs)
  let _ ← renameFolderMoveRec baseKey fuel oldAbs newAbs
  let destMeta ← Get baseKey (metaCol newParent)
  let _ ← Put baseKey (metaCol newParent)
    (if isErr destMeta ∨ destMeta = [] then newAbs else destMeta ++ 44 :: newAbs)
  removeEntry baseKey (beforeLast 47 oldAbs) oldAbs

/-! ### The handlers -/

/-- The listing column of a folder that is looked at is made anew when it cannot be
read. -/
def resetListing (folder metadata : Bytes) : Handler Unit :=
  if isErr metadata then do
    let _ ← Put baseKey (metaCol folder) []
    return ()
  else return ()

/-- The loop over the entries of a listing. -/
def listItems (folder : Bytes) : List Bytes → Handler (List (Bytes × Kind))
  | [] => return []
  | entry :: entries =>
    if entry = [] then listItems folder entries
    else do
      let item := afterLast 47 entry
      let colValue ← Get baseKey (inFolder folder item)
      let items ← listItems folder entries
      if colValue = kvFolder then return (item, .folder) :: items
      else if colValue = kvFile then return (item, .file) :: items
      else return items

/-- The page of a listing. -/
def listPage (folder metadata : Bytes) : Handler Answer :=
  if isErr metadata ∨ metadata = [] then return .ok (.listing folder none)
  else do
    let items ← listItems baseKey folder (splitStringStorage metadata)
    return .ok (.listing folder (some items))

/-- `webStorageList`. -/
def webStorageList (folder : Bytes) : Handler Answer := onWorker baseKey do
  let metadata ← Get baseKey (metaCol folder)
  let _ ← resetListing baseKey folder metadata
  if folder = [] then listPage baseKey folder metadata
  else
    let checkFolder ← Get baseKey folder
    if checkFolder = delKvFolder then
      return .badRequest (ascii ("<html><body>This folder was deleted. " ++
        "<p><a href='/storage'>Back to Storage Home</a></p></body></html>"))
    else listPage baseKey folder metadata

/-- The path that an upload tries instead of one that is taken: `(i)` goes before
the first dot of the whole path. -/
def variantPath (path : Bytes) (i : ℕ) : Bytes :=
  path.takeWhile (· ≠ 46) ++ parenthesized i ++ path.dropWhile (· ≠ 46)

/-- The loop of `webStorageUpload` that looks for a path which is not a file.
Without a dot in it the path has no variants: `substr(npos)` throws. -/
def freeUpload (path : Bytes) : ℕ → ℕ → Handler ℕ
  | 0, _ => Prog.fail .running
  | fuel + 1, i =>
    if 46 ∉ path then Prog.fail .outOfRange
    else do
      let resp ← Get baseKey (variantPath path i)
      if resp = kvFile then freeUpload path fuel (i + 1) else return i

/-- `chunkSize`. -/
def chunkSize : ℕ := 1000000

/-- The part of the data that the loop over the chunks sees: `fileSize` is an
`int`. -/
def storedPart (fileData : Bytes) : Bytes :=
  if fileData.length % 2 ^ 32 < 2 ^ 31 then fileData.take (fileData.length % 2 ^ 32) else []

/-- The loop over the chunks of an upload, at most `rounds` of them: the list of
chunks is read and extended with each, and begun when the text of an error is
read. -/
def storeChunks (path : Bytes) : ℕ → ℕ → Bytes → Handler Unit
  | 0, _, _ => return ()
  | rounds + 1, i, rest =>
    if rest = [] then return ()
    else do
      let chunkName := path ++ ascii "-" ++ decimal i
      let fileMetadata ← Get baseKey (path ++ ascii "-metadata")
      let _ ← Put baseKey (path ++ ascii "-metadata")
        (if (cut (ascii "not found") fileMetadata).isSome then chunkName
          else fileMetadata ++ 44 :: chunkName)
      let _ ← Put baseKey (chunkName ++ ascii "-content") (rest.take chunkSize)
      storeChunks path rounds (i + 1) (rest.drop chunkSize)

/-- The listing of the folder of an upload with the file on it. The name is looked
for among the entries, which are paths. -/
def withUpload (parentMeta filename path : Bytes) : Bytes :=
  if parentMeta = [] then path
  else if filename ∈ splitStringStorage parentMeta then parentMeta
  else parentMeta ++ 44 :: path

/-- The second half of `webStorageUpload`: the file is stored at a path and put on
the listing. -/
def storeUpload (folder filename path fileData : Bytes) : Handler Answer := do
  let _ ← Put baseKey path kvFile
  let _ ← storeChunks baseKey path (storedPart fileData).length 1 (storedPart fileData)
  let parentMeta ← Get baseKey (metaCol folder)
  -- the outcome of the call is not looked at
  let _ ← CPut baseKey (metaCol folder) parentMeta (withUpload parentMeta filename path)
  return .ok (.uploaded filename folder path)

/-- `webStorageUpload`. -/
def webStorageUpload (fuel : ℕ) (folder filename fileData : Bytes) : Handler Answer :=
  onWorker baseKey do
    if isValidName filename = false then
      return .badRequest
        (ascii "<html><body>Missing file name or incorrect format of filename.</body></html>")
    else
      let absolutePath := inFolder folder filename
      let resp ← Get baseKey absolutePath
      if resp = kvFile then
        let i ← freeUpload baseKey absolutePath fuel 1
        storeUpload baseKey folder (filename ++ parenthesized i) (variantPath absolutePath i)
          fileData
      else storeUpload baseKey folder filename absolutePath fileData

/-- The last calls of `webStorageCreateFolder`. -/
def makeFolder (parent name path : Bytes) : Handler Answer := do
  let _ ← Put baseKey path kvFolder
  let _ ← Put baseKey (path ++ ascii "-metadata") []
  return .ok (.folderCreated name parent path)

/-- `webStorageCreateFolder`. -/
def webStorageCreateFolder (parent newFolder : Bytes) : Handler Answer := onWorker baseKey do
  if isValidName newFolder = false then
    return .badRequest
      (ascii "<html><body>Missing new folder name or incorrect folder name.</body></html>")
  else
    let newFolderAbs := inFolder parent newFolder
    let newFolderCol ← Get baseKey newFolderAbs
    if newFolderCol ≠ [] ∧ isErr newFolderCol = false ∧ newFolderCol ≠ delKvFolder then
      return .badRequest (ascii "<html><body>Folder already exists.</body></html>")
    else
      let parentMeta ← Get baseKey (metaCol parent)
      if newFolder ∈ splitStringStorage parentMeta then
        makeFolder baseKey parent newFolder newFolderAbs
      else
        let _ ← Put baseKey (metaCol parent)
          (if parentMeta = [] then newFolderAbs else parentMeta ++ 44 :: newFolderAbs)
        makeFolder baseKey parent newFolder newFolderAbs

/-- `webStorageDelete`: every entry that contains the name somewhere leaves the
listing. -/
def webStorageDelete (fuel : ℕ) (absPath : Bytes) : Handler Answer := onWorker baseKey do
  let parent := beforeLast 47 absPath
  let pmeta ← Get baseKey (metaCol parent)
  let kept := (splitStringStorage pmeta).filter fun it => (cut (afterLast 47 absPath) it).isNone
  let _ ← Put baseKey (metaCol parent) (joinStorage kept)
  let _ ← deleteRec baseKey fuel absPath
  let marker ← Get baseKey absPath
  return .ok (.deleted (if marker = kvFolder then .folder else .file) (afterLast 47 absPath) parent)

/-- The entries of a listing with one of them replaced. -/
def replaceEntry (old new : Bytes) (entries : List Bytes) : List Bytes :=
  entries.map fun e => if e = old then new else e

/-- `webStorageRenameFile`. -/
def webStorageRenameFile (folder oldName newName : Bytes) : Handler Answer := onWorker baseKey do
  if isValidName newName = false then
    return .badRequest (ascii "<html><body>Invalid new filename.</body></html>")
  else
    let name := ensureSameExtension oldName newName
    let oldAbs := inFolder folder oldName
    let newAbs := inFolder folder name
    let existing ← Get baseKey newAbs
    if existing = kvFile then
      return .badRequest (ascii "<html><body>File name already exists.</body></html>")
    else
      let _ ← relocateFile baseKey oldAbs newAbs
      let listing ← Get baseKey (metaCol folder)
      let _ ← Put baseKey (metaCol folder)
        (joinStorage (replaceEntry oldAbs newAbs (splitStringStorage listing)))
      return .ok (.fileRenamed oldName name folder)

/-- `webStorageRenameFolder`. -/
def webStorageRenameFolder (fuel : ℕ) (folderPath newName : Bytes) : Handler Answer :=
  onWorker baseKey do
    if isValidName newName = false then
      return .badRequest (ascii
        "<html><body>Missing new folder name or incorrect format of folder name.</body></html>")
    else
      let parent := beforeLast 47 folderPath
      let newAbs := inFolder parent newName
      let existFolder ← Get baseKey newAbs
      if existFolder = kvFolder then
        return .badRequest
          (ascii "<html><body>Folder with same name already exists.</body></html>")
      else
        let pmeta ← Get baseKey (metaCol parent)
        let _ ← Put baseKey (metaCol parent)
          (joinStorage (replaceEntry folderPath newAbs (splitStringStorage pmeta)))
        let _ ← renameFolderRec baseKey fuel folderPath newAbs
        return .ok (.folderRenamed (afterLast 47 folderPath) newName newAbs)

/-- `webStorageMoveFile`, the `POST`. -/
def webStorageMoveFile (fuel : ℕ) (sourceFolder filename targetFolder : Bytes) :
    Handler Answer := onWorker baseKey do
  if filename = [] then
    return .badRequest (ascii "<html><body>Missing filename or target folder.</body></html>")
  else
    let path ← moveFile baseKey fuel (inFolder sourceFolder filename) targetFolder
    return .ok (.fileMoved filename targetFolder path)

/-- `webStorageMoveFolder`, the `POST`: it looks for the name on the listing of the
target, not for the item. -/
def webStorageMoveFolder (fuel : ℕ) (sourceFolder targetFolder : Bytes) : Handler Answer :=
  onWorker baseKey do
    if targetFolder = sourceFolder ∨ (sourceFolder ++ [47]).isPrefixOf targetFolder then
      return .badRequest (ascii "<html><body>Cannot move a folder into itself.</body></html>")
    else
      let text ← Get baseKey (metaCol targetFolder)
      let targetMeta := if isErr text then [] else text
      if afterLast 47 sourceFolder ∈ (splitStringStorage targetMeta).map (afterLast 47) then
        return .badRequest
          (ascii "<html><body>Cannot move: a folder or file named <strong>" ++
            afterLast 47 sourceFolder ++
            ascii "</strong> already exists in the destination.</body></html>")
      else if sourceFolder = [] then
        return .badRequest
          (ascii "<html><body>Missing source or target folder.</body></html>")
      else
        let _ ← moveFolder baseKey fuel sourceFolder targetFolder
        return .ok (.folderMoved sourceFolder targetFolder)

end Parts

/-! ### Requests -/

/-- A request of the web storage. -/
inductive StorageRequest where
  | list (folder : Bytes)
  | upload (folder filename fileData : Bytes)
  | createFolder (parent name : Bytes)
  | delete (path : Bytes)
  | renameFile (folder oldName newName : Bytes)
  | renameFolder (path newName : Bytes)
  | moveFile (source filename target : Bytes)
  | moveFolder (source target : Bytes)
  deriving DecidableEq

namespace StorageRequest

/-- The handler of a request. -/
def handler (baseKey : Bytes) (fuel : ℕ) : StorageRequest → Handler Answer
  | .list folder => webStorageList baseKey folder
  | .upload folder filename fileData => webStorageUpload baseKey fuel folder filename fileData
  | .createFolder parent name => webStorageCreateFolder baseKey parent name
  | .delete path => webStorageDelete baseKey fuel path
  | .renameFile folder oldName newName => webStorageRenameFile baseKey folder oldName newName
  | .renameFolder path newName => webStorageRenameFolder baseKey fuel path newName
  | .moveFile source filename target => webStorageMoveFile baseKey fuel source filename target
  | .moveFolder source target => webStorageMoveFolder baseKey fuel source target

/-- The paths of a request are made of names that `isValidName` accepts. -/
def Valid : StorageRequest → Prop
  | .list folder => IsFolderPath folder
  | .upload folder filename _ => IsFolderPath folder ∧ isValidName filename = true
  | .createFolder parent name => IsFolderPath parent ∧ isValidName name = true
  | .delete path => IsPath path
  | .renameFile folder oldName newName =>
    IsFolderPath folder ∧ isValidName oldName = true ∧ isValidName newName = true
  | .renameFolder path newName => IsPath path ∧ isValidName newName = true
  | .moveFile source filename target =>
    IsFolderPath source ∧ isValidName filename = true ∧ IsFolderPath target
  | .moveFolder source target => IsPath source ∧ IsFolderPath target

end StorageRequest

end PennCloud
