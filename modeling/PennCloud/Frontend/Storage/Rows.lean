import PennCloud.Frontend.Storage.Service

/-!
# What the handlers write

Everything the web storage does to a user's row it does by naming columns, and
what an operation can damage is a question of which columns it names.

* `PennCloud.Tablet.row` is the row of a user, as a map from columns to values,
  and `PennCloud.Tablet.text_eq_iff` says when a `Get` returns a given text.
* `PennCloud.Writes` says that a program writes certain columns only, whatever it
  reads; everything else is then as before (`PennCloud.Writes.row_eq`).
* `PennCloud.Under` is what belongs to an item: its own columns and those of
  everything below it. Two items neither of which is below the other have nothing
  in common (`PennCloud.Under.comparable`), since a path has no `-` in it.
-/

namespace PennCloud

open Wire Calls Text

/-! ### The row of a user -/

/-- The columns of a row. -/
abbrev Row := Bytes → Option Bytes

/-- The columns of a row of a tablet. -/
def Tablet.row (kvs : Tablet) (baseKey : Bytes) : Row := fun c => kvs.cells (baseKey, c)

section Row

variable {kvs : Tablet} {b c : Bytes}

/-- A cell that changes is a column of its row that changes. -/
theorem row_of_cells_update {t : Tablet} {o : Option Bytes}
    (h : t.cells = Function.update kvs.cells (b, c) o) :
    t.row b = Function.update (kvs.row b) c o := by
  funext c'
  rw [Tablet.row, h]
  rcases eq_or_ne c' c with rfl | hne
  · rw [Function.update_self, Function.update_self]
  · rw [Function.update_of_ne hne, Function.update_of_ne fun heq => hne (Prod.mk.inj heq).2]
    rfl

@[simp] theorem Tablet.row_put (value : Bytes) :
    (kvs.put b c value).row b = Function.update (kvs.row b) c (some value) :=
  row_of_cells_update (Tablet.cells_put kvs b c value)

@[simp] theorem Tablet.row_delete :
    (kvs.delete b c).row b = Function.update (kvs.row b) c none :=
  row_of_cells_update (Tablet.cells_delete kvs b c)

/-- The text of a `Get` that finds nothing. -/
def NotFound (text : Bytes) : Prop :=
  text = ascii "ERR 5: Row key not found\n" ∨ text = ascii "ERR 5: Column key not found\n"

theorem Tablet.text_of_row {value : Bytes} (h : kvs.row b c = some value) : kvs.text b c = value :=
  Tablet.text_of_some h

theorem Tablet.notFound_of_row (h : kvs.row b c = none) : NotFound (kvs.text b c) := by
  have hcells : kvs.cells (b, c) = none := h
  rcases hl : kvs.lookup b with _ | columns
  · refine Or.inl ?_
    simp only [Tablet.text, Tablet.get, hl, clientText]
    decide
  · rcases hv : columns.lookup c with _ | value
    · refine Or.inr ?_
      simp only [Tablet.text, Tablet.get, hl, hv, clientText]
      decide
    · exact absurd hcells (by simp [Tablet.cells, hl, hv])

theorem NotFound.isErr {text : Bytes} (h : NotFound text) : isErr text = true := by
  rcases h with rfl | rfl <;> decide

/-- **When a `Get` returns a text** that is not the text of an error. -/
theorem Tablet.text_eq_iff {value : Bytes} (hv : isErr value = false) :
    kvs.text b c = value ↔ kvs.row b c = some value := by
  rcases hrow : kvs.row b c with _ | w
  · have herr := (Tablet.notFound_of_row hrow).isErr
    constructor
    · rintro rfl
      exact absurd (herr.symm.trans hv) (by decide)
    · simp
  · rw [Tablet.text_of_row hrow, Option.some_inj]

theorem isErr_kvFile : isErr kvFile = false := by decide
theorem isErr_kvFolder : isErr kvFolder = false := by decide
theorem isErr_delKvFolder : isErr delKvFolder = false := by decide

end Row

/-! ### Programs that write certain columns -/

/-- A call that writes nothing, or one of the columns `X` of the row. -/
def Call.WritesIn (b : Bytes) (X : Bytes → Prop) : Call → Prop
  | .update u => u.row = b ∧ X u.column
  | _ => True

/-- **A program that writes the columns `X` only**, whatever it reads. -/
def Writes (b : Bytes) (X : Bytes → Prop) {α : Type} (p : Handler α) : Prop :=
  p.Uses (Call.WritesIn b X)

section Writes

variable {b : Bytes} {X : Bytes → Prop} {α β : Type}

theorem Writes.row_eq {p : Handler α} (h : Writes b X p) (master : Master) (kvs : Tablet)
    {c : Bytes} (hc : ¬X c) : (p.run (Call.exec master) kvs).2.row b c = kvs.row b c := by
  refine Prog.Uses.run (P := fun s : Tablet => s.row b c = kvs.row b c) _ h ?_ rfl
  intro call s hcall hs
  rcases call with key | ⟨r, c'⟩ | u
  · exact hs
  · exact hs
  · have hne : (b, c) ≠ u.cell := fun heq => hc ((Prod.mk.inj heq).2 ▸ hcall.2)
    rw [← hs]
    exact Call.cells_exec_of_ne master s hne

theorem Writes.mono {Y : Bytes → Prop} {p : Handler α} (h : Writes b X p) (hXY : ∀ c, X c → Y c) :
    Writes b Y p := by
  refine Prog.Uses.mono h fun call hcall => ?_
  rcases call with key | ⟨r, c'⟩ | u
  · exact trivial
  · exact trivial
  · exact ⟨hcall.1, hXY _ hcall.2⟩

theorem Writes.bind {p : Handler α} {f : α → Handler β} (hp : Writes b X p)
    (hf : ∀ a, Writes b X (f a)) : Writes b X (p >>= f) := Prog.Uses.bind hp hf

theorem Writes.get {r c : Bytes} {f : Bytes → Handler α} (hf : ∀ t, Writes b X (f t)) :
    Writes b X (Get r c >>= f) := ⟨trivial, hf⟩

theorem Writes.put {c v : Bytes} {f : Bytes → Handler α} (hc : X c) (hf : ∀ t, Writes b X (f t)) :
    Writes b X (Put b c v >>= f) := ⟨⟨rfl, hc⟩, hf⟩

theorem Writes.cput {c v w : Bytes} {f : Bytes → Handler α} (hc : X c)
    (hf : ∀ t, Writes b X (f t)) : Writes b X (CPut b c v w >>= f) := ⟨⟨rfl, hc⟩, hf⟩

theorem Writes.delete {c : Bytes} {f : Bytes → Handler α} (hc : X c)
    (hf : ∀ t, Writes b X (f t)) : Writes b X (Delete b c >>= f) := ⟨⟨rfl, hc⟩, hf⟩

theorem Writes.ite {p : Prop} [Decidable p] {x y : Handler α} (hx : p → Writes b X x)
    (hy : ¬p → Writes b X y) : Writes b X (if p then x else y) := by
  split_ifs with h
  · exact hx h
  · exact hy h

theorem Writes.each {γ : Type} {f : γ → Handler Unit} {xs : List γ}
    (hf : ∀ x ∈ xs, Writes b X (f x)) : Writes b X (Prog.each f xs) := Prog.Uses.each hf

/-- What two parts of a program leave alone, the program leaves alone. -/
theorem row_eq_bind {master : Master} {p : Handler α} {f : α → Handler β} {kvs : Tablet} {c : Bytes}
    (hp : (p.run (Call.exec master) kvs).2.row b c = kvs.row b c)
    (hf : ∀ a s, p.run (Call.exec master) kvs = (.ok a, s) →
      ((f a).run (Call.exec master) s).2.row b c = s.row b c) :
    ((p >>= f).run (Call.exec master) kvs).2.row b c = kvs.row b c := by
  rcases Prog.run_bind (Call.exec master) p f kvs with ⟨a, hok, hrun⟩ | ⟨e, -, hrun⟩
  · rw [hrun, hf a _ hok, hp]
  · rw [hrun, hp]

/-- What both branches leave alone. -/
theorem row_eq_ite {master : Master} {P : Prop} [Decidable P] {x y : Handler α} {kvs : Tablet}
    {c : Bytes} (hx : P → (x.run (Call.exec master) kvs).2.row b c = kvs.row b c)
    (hy : ¬P → (y.run (Call.exec master) kvs).2.row b c = kvs.row b c) :
    ((if P then x else y).run (Call.exec master) kvs).2.row b c = kvs.row b c := by
  split_ifs with h
  · exact hx h
  · exact hy h

end Writes

/-! ### What belongs to an item -/

/-- The column `c` belongs to the item `a` or to something below it: `a` itself, or
`a` followed by `/` or `-`. -/
def Under (a c : Bytes) : Prop := ∃ t, c = a ++ t ∧ ∀ x ∈ t.head?, x = 47 ∨ x = 45

theorem Under.refl (a : Bytes) : Under a a := ⟨[], by simp, by simp⟩

theorem under_slash (a t : Bytes) : Under a (a ++ 47 :: t) :=
  ⟨47 :: t, rfl, by simp⟩

theorem under_dash (a t : Bytes) : Under a (a ++ 45 :: t) :=
  ⟨45 :: t, rfl, by simp⟩

theorem under_metadata (a : Bytes) : Under a (a ++ ascii "-metadata") := under_dash a _

theorem under_content (a : Bytes) : Under a (a ++ ascii "-content") := under_dash a _

theorem Under.trans {a a' c : Bytes} (h : Under a a') (h' : Under a' c) : Under a c := by
  obtain ⟨s, rfl, hs⟩ := h
  obtain ⟨t, rfl, ht⟩ := h'
  refine ⟨s ++ t, List.append_assoc a s t, ?_⟩
  rcases s with _ | ⟨x, s⟩
  · exact ht
  · simpa using hs

/-- Of two items that have a column in common, one is below the other. -/
theorem Under.comparable {a a' c : Bytes} (h : Under a c) (h' : Under a' c) :
    Under a a' ∨ Under a' a := by
  obtain ⟨t, rfl, ht⟩ := h
  obtain ⟨t', heq, ht'⟩ := h'
  rcases List.append_eq_append_iff.mp heq with ⟨s, rfl, rfl⟩ | ⟨s, rfl, rfl⟩
  · left
    refine ⟨s, rfl, fun x hx => ht x ?_⟩
    rcases s with _ | ⟨y, s⟩
    · exact absurd hx (by simp)
    · exact hx
  · right
    refine ⟨s, rfl, fun x hx => ht' x ?_⟩
    rcases s with _ | ⟨y, s⟩
    · exact absurd hx (by simp)
    · exact hx

/-- A column of an item that belongs to `a` makes the item belong to `a`. -/
theorem Under.of_append {a p s : Bytes} (ha : 45 ∉ a) (hs : ∀ x ∈ s.head?, x = 45)
    (h : Under a (p ++ s)) : Under a p := by
  obtain ⟨t, heq, ht⟩ := h
  rcases List.append_eq_append_iff.mp heq with ⟨r, rfl, rfl⟩ | ⟨r, rfl, rfl⟩
  · rcases r with _ | ⟨x, r⟩
    · rw [List.append_nil]
      exact Under.refl p
    · exact absurd (List.mem_append_right p List.mem_cons_self) (hs x rfl ▸ ha)
  · refine ⟨r, rfl, fun x hx => ht x ?_⟩
    rcases r with _ | ⟨y, r⟩
    · exact absurd hx (by simp)
    · exact hx

/-- What is below an item and is a path is the item or has a `/` behind it. -/
theorem Under.eq_or_slash {a p : Bytes} (h : Under a p) (hp : IsPath p) :
    p = a ∨ ∃ t, p = a ++ 47 :: t := by
  obtain ⟨t, rfl, ht⟩ := h
  rcases t with _ | ⟨x, t⟩
  · exact Or.inl (List.append_nil a)
  · rcases ht x rfl with rfl | rfl
    · exact Or.inr ⟨t, rfl⟩
    · exact absurd (List.mem_append_right a List.mem_cons_self) hp.notMem_dash

/-- Two children of a folder have nothing in common. -/
theorem not_under_sibling {a l l' : Bytes} (hl' : isValidName l' = true) (hne : l ≠ l') :
    ¬Under (a ++ 47 :: l) (a ++ 47 :: l') := by
  rintro ⟨t, heq, ht⟩
  have htail : l' = l ++ t := by simpa using heq
  rcases t with _ | ⟨x, t⟩
  · exact hne (by simpa using htail.symm)
  · have hmem : x ∈ l' := htail ▸ List.mem_append_right l List.mem_cons_self
    rcases ht x rfl with rfl | rfl
    · exact notMem_of_isValidName hl' hmem
    · exact (IsPath.of_isValidName hl').notMem_dash hmem

/-- Nothing of a child of a folder is a column of the folder itself. -/
theorem not_under_child {a l s : Bytes} (hs : s.head? ≠ some 47) :
    ¬Under (a ++ 47 :: l) (a ++ s) := by
  rintro ⟨t, heq, -⟩
  have hs' : s = 47 :: (l ++ t) := by simpa using heq
  exact hs (by rw [hs']; rfl)

theorem not_under_child_self {a l : Bytes} : ¬Under (a ++ 47 :: l) a := by
  have h := @not_under_child a l [] (by simp)
  rwa [List.append_nil] at h

theorem ne_of_not_under {a c c' : Bytes} (h : ¬Under a c) (h' : Under a c') : c ≠ c' :=
  fun heq => h (heq ▸ h')

theorem ne_of_under {a c c' : Bytes} (h : Under a c) (h' : ¬Under a c') : c ≠ c' :=
  fun heq => h' (heq ▸ h)

/-- What is kept under an empty path belongs to no item. -/
theorem IsPath.not_under_blank {a : Bytes} (ha : IsPath a) {s : Bytes}
    (hs : ∀ x ∈ s.head?, x = 45) : ¬Under a s := by
  rintro ⟨t, rfl, -⟩
  rcases a with _ | ⟨x, a⟩
  · exact ha.ne_nil rfl
  · exact ha.notMem_dash (hs x rfl ▸ List.mem_cons_self)

/-- The columns of an item itself: the path, or the path followed by `-`. -/
def ColumnOf (a c : Bytes) : Prop := ∃ t, c = a ++ t ∧ ∀ x ∈ t.head?, x = 45

theorem ColumnOf.refl (a : Bytes) : ColumnOf a a := ⟨[], by simp, by simp⟩

theorem columnOf_dash (a t : Bytes) : ColumnOf a (a ++ 45 :: t) := ⟨45 :: t, rfl, by simp⟩

theorem columnOf_metadata (a : Bytes) : ColumnOf a (a ++ ascii "-metadata") := columnOf_dash a _

theorem columnOf_content (a : Bytes) : ColumnOf a (a ++ ascii "-content") := columnOf_dash a _

theorem ColumnOf.under {a c : Bytes} (h : ColumnOf a c) : Under a c := by
  obtain ⟨t, rfl, ht⟩ := h
  exact ⟨t, rfl, fun x hx => Or.inr (ht x hx)⟩

/-- A column is the column of one item only. -/
theorem ColumnOf.eq {a a' c : Bytes} (ha : 45 ∉ a) (ha' : 45 ∉ a') (h : ColumnOf a c)
    (h' : ColumnOf a' c) : a = a' := by
  obtain ⟨t, rfl, ht⟩ := h
  obtain ⟨t', heq, ht'⟩ := h'
  exact (append_inj_of_notMem ha ha' ht ht' heq).1

theorem ColumnOf.under_iff {a p c : Bytes} (ha : 45 ∉ a) (h : ColumnOf p c) :
    Under a c → Under a p := by
  obtain ⟨t, rfl, ht⟩ := h
  exact Under.of_append ha ht

/-! ### Moving a file -/

/-- The list of chunks at a path, if there is one, names chunks of that path. -/
def OwnChunks (R : Row) (p : Bytes) : Prop :=
  ∀ v, R (p ++ ascii "-metadata") = some v → v ≠ [] → isErr v = false →
    ∀ chunk ∈ splitStringStorage v, ∃ t, chunk = p ++ 45 :: t

section Relocate

variable {b : Bytes} {X : Bytes → Prop} {old new : Bytes}

theorem writes_moveChunks (hold : ∀ c, ColumnOf old c → X c) (hnew : ∀ c, ColumnOf new c → X c)
    {chunks : List Bytes} (h : ∀ chunk ∈ chunks, ∃ t, chunk = old ++ 45 :: t) :
    Writes b X (moveChunks b old new chunks) := by
  induction chunks with
  | nil => exact trivial
  | cons chunk chunks ih =>
    obtain ⟨t, rfl⟩ := h _ List.mem_cons_self
    have hdrop : (old ++ 45 :: t).drop old.length = 45 :: t := List.drop_left
    rw [moveChunks]
    refine Writes.ite (fun _ => trivial) fun _ => ?_
    rw [hdrop]
    refine Writes.get fun _ => Writes.put (hnew _ ?_) fun _ => Writes.delete (hold _ ?_) fun _ => ?_
    · rw [List.append_assoc]
      exact columnOf_dash new _
    · rw [List.append_assoc]
      exact columnOf_dash old _
    · exact (ih fun chunk hmem => h chunk (List.mem_cons_of_mem _ hmem)).bind fun _ => trivial

/-- A file that is moved leaves alone what is neither a column of the old path nor
of the new one. -/
theorem relocateFile_row_eq (master : Master) {kvs : Tablet} (h : OwnChunks (kvs.row b) old)
    {c : Bytes} (hold : ¬ColumnOf old c) (hnew : ¬ColumnOf new c) :
    ((relocateFile b old new).run (Call.exec master) kvs).2.row b c = kvs.row b c := by
  have hX : ∀ c', ColumnOf old c' → ColumnOf old c' ∨ ColumnOf new c' := fun _ => Or.inl
  have hX' : ∀ c', ColumnOf new c' → ColumnOf old c' ∨ ColumnOf new c' := fun _ => Or.inr
  rw [relocateFile, moveContent, Prog.bind_bind, run_Get_bind]
  refine Writes.row_eq (X := fun c' => ColumnOf old c' ∨ ColumnOf new c') ?_ master kvs
    (not_or.mpr ⟨hold, hnew⟩)
  refine Writes.bind (Writes.ite (fun hmeta => ?_) fun _ => ?_) fun _ =>
    Writes.put (hX' _ (ColumnOf.refl new)) fun _ =>
      Writes.delete (hX _ (ColumnOf.refl old)) fun _ => trivial
  · have hrow := (Tablet.text_eq_iff hmeta.2).mp (rfl : kvs.text b (old ++ ascii "-metadata") = _)
    refine (writes_moveChunks hX hX' (h _ hrow hmeta.1 hmeta.2)).bind fun _ => ?_
    exact Writes.put (hX' _ (columnOf_metadata new)) fun _ =>
      Writes.delete (hX _ (columnOf_metadata old)) fun _ => trivial
  · exact Writes.get fun _ => Writes.put (hX' _ (columnOf_content new)) fun _ =>
      Writes.delete (hX _ (columnOf_content old)) fun _ => trivial

end Relocate

/-! ### Nothing under an empty path -/

/-- The columns of an empty path. -/
def IsBlank (c : Bytes) : Prop := c = [] ∨ c = ascii "-metadata" ∨ c = ascii "-content"

/-- Nothing is kept under an empty path. -/
def Blank (R : Row) : Prop := ∀ c, IsBlank c → R c = none

theorem IsBlank.head {c : Bytes} (h : IsBlank c) : ∀ x ∈ c.head?, x = 45 := by
  rcases h with rfl | rfl | rfl
  · exact fun x hx => absurd hx (by simp)
  · exact fun x hx => (Option.some.inj hx).symm
  · exact fun x hx => (Option.some.inj hx).symm

theorem Blank.of_row_eq {R R' : Row} (h : Blank R)
    (heq : ∀ s : Bytes, (∀ x ∈ s.head?, x = 45) → R' s = R s) : Blank R' :=
  fun c hc => (heq c hc.head).trans (h c hc)

theorem Blank.update {R : Row} (h : Blank R) {c : Bytes} (hc : ¬IsBlank c) (v : Option Bytes) :
    Blank (Function.update R c v) := by
  intro c' hc'
  have hne : c' ≠ c := fun heq => hc (heq ▸ hc')
  rw [Function.update_of_ne hne]
  exact h c' hc'

/-- A text that begins with something other than `-`. -/
def Rooted (c : Bytes) : Prop := ∃ x t, c = x :: t ∧ x ≠ 45

theorem Rooted.append {c : Bytes} (h : Rooted c) (t : Bytes) : Rooted (c ++ t) := by
  obtain ⟨x, s, rfl, hx⟩ := h
  exact ⟨x, s ++ t, rfl, hx⟩

theorem Rooted.not_isBlank {c : Bytes} (h : Rooted c) : ¬IsBlank c := by
  obtain ⟨x, s, rfl, hx⟩ := h
  exact fun hb => hx (hb.head x rfl)

theorem IsPath.rooted {p : Bytes} (h : IsPath p) : Rooted p := by
  rcases p with _ | ⟨x, t⟩
  · exact absurd rfl h.ne_nil
  · exact ⟨x, t, rfl, fun hx => h.notMem_dash (hx ▸ List.mem_cons_self)⟩

theorem rooted_metaCol {folder : Bytes} (h : IsFolderPath folder) : Rooted (metaCol folder) := by
  rw [metaCol]
  rcases h with rfl | h
  · exact ⟨109, _, rfl, by decide⟩
  · rw [if_neg h.ne_nil]
    exact h.rooted.append _

/-- **A program that keeps the empty path empty.** -/
def KeepsBlank (b : Bytes) (master : Master) {α : Type} (p : Handler α) : Prop :=
  ∀ kvs : Tablet, Blank (kvs.row b) → Blank ((p.run (Call.exec master) kvs).2.row b)

namespace KeepsBlank

variable {b : Bytes} {master : Master} {α β : Type}

theorem pure (a : α) : KeepsBlank b master (pure a : Handler α) := fun _ h => h

theorem fail (e : Abort) : KeepsBlank b master (Prog.fail e : Handler α) := fun _ h => h

theorem bind {p : Handler α} {f : α → Handler β} (hp : KeepsBlank b master p)
    (hf : ∀ a, KeepsBlank b master (f a)) : KeepsBlank b master (p >>= f) := by
  intro kvs h
  rcases Prog.run_bind (Call.exec master) p f kvs with ⟨a, -, hrun⟩ | ⟨e, -, hrun⟩
  · rw [hrun]
    exact hf a _ (hp kvs h)
  · rw [hrun]
    exact hp kvs h

theorem get {c : Bytes} {f : Bytes → Handler α} (hf : ∀ t, KeepsBlank b master (f t)) :
    KeepsBlank b master (Get b c >>= f) := fun kvs h => hf _ kvs h

theorem put {c v : Bytes} {f : Bytes → Handler α} (hc : ¬IsBlank c)
    (hf : ∀ t, KeepsBlank b master (f t)) : KeepsBlank b master (Put b c v >>= f) := by
  intro kvs h
  rw [run_Put_bind]
  refine hf _ _ ?_
  rw [Tablet.row_put]
  exact h.update hc _

theorem cput {c v w : Bytes} {f : Bytes → Handler α} (hc : ¬IsBlank c)
    (hf : ∀ t, KeepsBlank b master (f t)) : KeepsBlank b master (CPut b c v w >>= f) := by
  intro kvs h
  refine hf _ _ fun c' hc' => ?_
  have hne : (b, c') ≠ Update.cell (.cput b c v w) := by
    intro heq
    obtain rfl : c' = c := (Prod.mk.inj heq).2
    exact hc hc'
  exact (Call.cells_exec_of_ne master kvs hne).trans (h c' hc')

theorem delete {c : Bytes} {f : Bytes → Handler α} (hf : ∀ t, KeepsBlank b master (f t)) :
    KeepsBlank b master (Delete b c >>= f) := by
  intro kvs h
  rw [run_Delete_bind]
  refine hf _ _ fun c' hc' => ?_
  rw [Tablet.row_delete]
  by_cases heq : c' = c
  · rw [heq, Function.update_self]
  · rw [Function.update_of_ne heq]
    exact h c' hc'

theorem ite {p : Prop} [Decidable p] {x y : Handler α} (hx : p → KeepsBlank b master x)
    (hy : ¬p → KeepsBlank b master y) : KeepsBlank b master (if p then x else y) := by
  split_ifs with h
  · exact hx h
  · exact hy h

theorem each {γ : Type} {f : γ → Handler Unit} (hf : ∀ x, KeepsBlank b master (f x))
    (xs : List γ) : KeepsBlank b master (Prog.each f xs) := by
  induction xs with
  | nil => exact pure ()
  | cons x xs ih =>
    rw [Prog.each_cons]
    exact (hf x).bind fun _ => ih

theorem moveChunks {old new : Bytes} (hnew : Rooted new) (chunks : List Bytes) :
    KeepsBlank b master (moveChunks b old new chunks) := by
  induction chunks with
  | nil => exact pure _
  | cons chunk chunks ih =>
    rw [PennCloud.moveChunks]
    refine ite (fun _ => fail _) fun _ => get fun _ => put ?_ fun _ => delete fun _ =>
      ih.bind fun _ => pure _
    exact ((hnew.append _).append _).not_isBlank

theorem relocateFile (old : Bytes) {new : Bytes} (hnew : Rooted new) :
    KeepsBlank b master (relocateFile b old new) := by
  rw [PennCloud.relocateFile, moveContent, Prog.bind_bind]
  refine get fun _ => bind (ite (fun _ => ?_) fun _ => ?_) fun _ =>
    put hnew.not_isBlank fun _ => delete fun _ => pure _
  · exact (moveChunks hnew _).bind fun _ => put (hnew.append _).not_isBlank fun _ =>
      delete fun _ => pure _
  · exact get fun _ => put (hnew.append _).not_isBlank fun _ => delete fun _ => pure _

end KeepsBlank

/-- The entry of an empty listing is moved as if it were a file. -/
theorem relocateFile_nil_row {b : Bytes} (master : Master) {kvs : Tablet}
    (h : Blank (kvs.row b)) (new : Bytes) :
    ∃ v, ((relocateFile b [] new).run (Call.exec master) kvs).2.row b =
      Function.update (Function.update (Function.update (Function.update (kvs.row b)
        (new ++ ascii "-content") (some v)) (ascii "-content") none) new (some kvFile)) []
          none := by
  have herr := (Tablet.notFound_of_row (h _ (Or.inr (Or.inl rfl)))).isErr
  refine ⟨kvs.text b (ascii "-content"), ?_⟩
  rw [relocateFile, moveContent, Prog.bind_bind, run_Get_bind]
  simp only [List.nil_append, herr, Bool.true_eq_false, and_false, if_false, Prog.bind_bind,
    run_Get_bind, run_Put_bind, run_Delete_bind, Prog.pure_bind, Prog.run_pure, Tablet.row_put,
    Tablet.row_delete]

end PennCloud
