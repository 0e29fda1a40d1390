import PennCloud.Frontend.Mail.FormFields
import PennCloud.Frontend.Mail.Lists

/-!
# The links of a mailbox

Beside each message `renderInbox` puts a link that shows it and one that deletes it.
The id of the message and the name of the user are written into the query as they are;
the browser writes a blank as `%20` and leaves the rest alone
(`PennCloud.spacesEncoded`). On the way back `handleRequest` cuts the query at its
ampersands and decodes what stands between them, also what was never encoded.

`PennCloud.reread` is what becomes of a text on this way, and `PennCloud.inboxLinks_iff`
says which messages and which users the links lead back to. A percent sign does no harm
at the very end of a name, where two characters behind it are missing; an id has its
own ending, and never a percent sign there.
-/

namespace PennCloud

open Wire Calls Text FormCoding

/-! ### What the browser does -/

/-- The query of a link of `renderInbox`. -/
def linkQuery (id folder username : Bytes) : Bytes :=
  ascii "id=" ++ id ++ ascii "&folder=" ++ folder ++ ascii "&username=" ++ username

/-- A character of a link, as the browser sends it. -/
def sentChar (c : UInt8) : Bytes := if c = 32 then ascii "%20" else [c]

/-- A text of a link, as the browser sends it: only blanks are encoded. -/
def spacesEncoded (text : Bytes) : Bytes := text.flatMap sentChar

section Spaces

variable {c : UInt8} {s t : Bytes}

theorem spacesEncoded_append : spacesEncoded (s ++ t) = spacesEncoded s ++ spacesEncoded t :=
  List.flatMap_append

theorem spacesEncoded_space : spacesEncoded (32 :: s) = 37 :: 50 :: 48 :: spacesEncoded s := rfl

theorem spacesEncoded_cons (h : c ≠ 32) : spacesEncoded (c :: s) = c :: spacesEncoded s := by
  rw [spacesEncoded, List.flatMap_cons, sentChar, if_neg h]
  rfl

theorem spacesEncoded_of_notMem (h : 32 ∉ s) : spacesEncoded s = s := by
  induction s with
  | nil => rfl
  | cons c s ih =>
    rw [spacesEncoded_cons (List.ne_of_not_mem_cons h).symm, ih (List.not_mem_of_not_mem_cons h)]

/-- Only a blank becomes something else. -/
theorem mem_spacesEncoded (hc : c ∉ ascii "%20") (hblank : c ≠ 32) :
    c ∈ spacesEncoded s ↔ c ∈ s := by
  rw [spacesEncoded, List.mem_flatMap]
  constructor
  · rintro ⟨d, hd, hmem⟩
    rw [sentChar] at hmem
    split_ifs at hmem
    · exact absurd hmem hc
    · rwa [List.mem_singleton.mp hmem]
  · intro h
    refine ⟨c, h, ?_⟩
    rw [sentChar, if_neg hblank]
    exact List.mem_singleton.mpr rfl

/-- The pieces of what is sent. -/
theorem splitOn_spacesEncoded (s : Bytes) :
    (spacesEncoded s).splitOn 38 = (s.splitOn 38).map spacesEncoded := by
  have hall : ∀ p ∈ (s.splitOn 38).map spacesEncoded, 38 ∉ p := by
    intro p hp
    obtain ⟨r, hr, rfl⟩ := List.mem_map.mp hp
    rw [mem_spacesEncoded (by decide) (by decide)]
    exact notMem_of_mem_splitOn hr
  have hnil : (s.splitOn 38).map spacesEncoded ≠ [] :=
    List.map_eq_nil_iff.not.mpr (List.splitOn_ne_nil 38 s)
  have hjoin : ∀ ps : List Bytes, spacesEncoded ([38].intercalate ps) =
      [38].intercalate (ps.map spacesEncoded) := by
    intro ps
    induction ps with
    | nil => rfl
    | cons p ps ih =>
      rcases ps with _ | ⟨q, ps⟩
      · rw [List.map_singleton, List.intercalate_singleton, List.intercalate_singleton]
      · rw [List.map_cons, List.map_cons, List.intercalate_cons_cons, List.intercalate_cons_cons,
          spacesEncoded_append, spacesEncoded_append, ih]
        rfl
  calc (spacesEncoded s).splitOn 38
      = (spacesEncoded ([38].intercalate (s.splitOn 38))).splitOn 38 := by
        rw [List.intercalate_splitOn]
    _ = ([38].intercalate ((s.splitOn 38).map spacesEncoded)).splitOn 38 := by rw [hjoin]
    _ = (s.splitOn 38).map spacesEncoded := List.splitOn_intercalate 38 hall hnil

/-- A beginning without percent signs and blanks is one of what was sent. -/
theorem exists_of_spacesEncoded_eq {w v : Bytes} (hw : 37 ∉ w)
    (h : spacesEncoded s = w ++ v) : ∃ r, s = w ++ r ∧ spacesEncoded r = v := by
  induction w generalizing s with
  | nil => exact ⟨s, rfl, h⟩
  | cons c w ih =>
    rcases s with _ | ⟨d, s⟩
    · exact absurd h (List.cons_ne_nil c _).symm
    · by_cases hd : d = 32
      · subst hd
        exact absurd (List.cons.inj h).1.symm (List.ne_of_not_mem_cons hw).symm
      · rw [spacesEncoded_cons hd] at h
        obtain ⟨rfl, hrest⟩ := List.cons.inj h
        obtain ⟨r, rfl, hr⟩ := ih (List.not_mem_of_not_mem_cons hw) hrest
        exact ⟨r, rfl, hr⟩

end Spaces

/-! ### What comes back -/

/-- **What is read of a text that was put into a link.** -/
def reread : Bytes → Bytes
  | [] => []
  | 37 :: 32 :: s => 48 :: reread s
  | 37 :: c :: 32 :: s => (readHex c 37).toList ++ 50 :: 48 :: reread s
  | 37 :: c :: d :: s => (readHex c d).toList ++ reread s
  | 43 :: s => 32 :: reread s
  | c :: s => c :: reread s

section Equations

variable {c d : UInt8} {s : Bytes}

theorem reread_percent_blank : reread (37 :: 32 :: s) = 48 :: reread s := by rw [reread]

theorem reread_hex_blank (hc : c ≠ 32) :
    reread (37 :: c :: 32 :: s) = (readHex c 37).toList ++ 50 :: 48 :: reread s := by
  rw [reread]
  exact hc

theorem reread_hex (hc : c ≠ 32) (hd : d ≠ 32) :
    reread (37 :: c :: d :: s) = (readHex c d).toList ++ reread s := by
  rw [reread]
  · exact hc
  · exact hd

theorem reread_plus : reread (43 :: s) = 32 :: reread s := by rw [reread]

/-- Any other character, and a percent sign at the end. -/
theorem reread_other (hblank : ∀ t, c = 37 → s = 32 :: t → False)
    (hhex : ∀ a b t, c = 37 → s = a :: b :: t → False) (hplus : c ≠ 43) :
    reread (c :: s) = c :: reread s := by
  rw [reread]
  · exact hblank
  · exact fun a t => hhex a 32 t
  · exact hhex
  · exact hplus

end Equations

theorem urlDecode_percent (a b : UInt8) (src : Bytes) :
    urlDecode (37 :: a :: b :: src) = (readHex a b).toList ++ urlDecode src := by
  rw [urlDecode]

theorem urlDecode_spacesEncoded (s : Bytes) : urlDecode (spacesEncoded s) = reread s := by
  induction s using reread.induct with
  | case1 => rfl
  | case2 s ih =>
    have hread : readHex 37 50 = none := by decide
    rw [spacesEncoded_cons (by decide), spacesEncoded_space, urlDecode_percent, hread,
      urlDecode_cons (by decide) (by decide), ih, reread_percent_blank]
    rfl
  | case3 c s hc ih =>
    rw [spacesEncoded_cons (by decide), spacesEncoded_cons hc, spacesEncoded_space,
      urlDecode_percent, urlDecode_cons (by decide) (by decide),
      urlDecode_cons (by decide) (by decide), ih, reread_hex_blank hc]
  | case4 c d s hc hd ih =>
    rw [spacesEncoded_cons (by decide), spacesEncoded_cons hc, spacesEncoded_cons hd,
      urlDecode_percent, ih, reread_hex hc hd]
  | case5 s ih =>
    rw [spacesEncoded_cons (by decide), urlDecode, ih, reread_plus]
  | case6 c s hspace hblank hhex hplus ih =>
    rw [reread_other hspace hhex hplus]
    by_cases h32 : c = 32
    · have hread : readHex 50 48 = some 32 := by decide
      rw [h32, spacesEncoded_space, urlDecode_percent, hread, ih]
      rfl
    by_cases h37 : c = 37
    · subst h37
      rcases s with _ | ⟨d, _ | ⟨e, s⟩⟩
      · rfl
      · have hd : d ≠ 32 := fun h => hspace [] rfl (h ▸ rfl)
        rw [spacesEncoded_cons hd] at ih
        rw [spacesEncoded_cons (by decide), spacesEncoded_cons hd, ← ih]
        rfl
      · exact (hhex d e s rfl rfl).elim
    · rw [spacesEncoded_cons h32, urlDecode_cons h37 hplus, ih]

theorem length_toList_le (o : Option UInt8) : o.toList.length ≤ 1 := by
  rcases o with _ | d
  · exact Nat.zero_le 1
  · exact le_rfl

/-- It does not get longer. -/
theorem length_reread_le (s : Bytes) : (reread s).length ≤ s.length := by
  induction s using reread.induct with
  | case1 => exact le_rfl
  | case2 s ih =>
    rw [reread_percent_blank]
    simp only [List.length_cons]
    omega
  | case3 c s hc ih =>
    have hread := length_toList_le (readHex c 37)
    rw [reread_hex_blank hc]
    simp only [List.length_append, List.length_cons]
    omega
  | case4 c d s hc hd ih =>
    have hread := length_toList_le (readHex c d)
    rw [reread_hex hc hd]
    simp only [List.length_append, List.length_cons]
    omega
  | case5 s ih =>
    rw [reread_plus]
    exact Nat.succ_le_succ ih
  | case6 c s hspace hblank hhex hplus ih =>
    rw [reread_other hspace hhex hplus]
    exact Nat.succ_le_succ ih

/-- **A text that a link keeps**: it has no plus, and behind a percent sign there is at most
one character, and no blank. -/
structure KeptInLink (s : Bytes) : Prop where
  plus : 43 ∉ s
  percent : ∀ b, 37 :: b <:+ s → b.length ≤ 1 ∧ 32 ∉ b

theorem keptInLink_cons {c : UInt8} {s : Bytes} :
    KeptInLink (c :: s) ↔ c ≠ 43 ∧ (c = 37 → s.length ≤ 1 ∧ 32 ∉ s) ∧ KeptInLink s := by
  constructor
  · rintro ⟨hplus, hpercent⟩
    refine ⟨(List.ne_of_not_mem_cons hplus).symm, ?_, List.not_mem_of_not_mem_cons hplus, ?_⟩
    · rintro rfl
      exact hpercent s List.suffix_rfl
    · exact fun b hb => hpercent b (hb.trans (List.suffix_cons c s))
  · rintro ⟨hc, hpercent, hs⟩
    refine ⟨?_, fun b hb => ?_⟩
    · rw [List.mem_cons]
      exact not_or.mpr ⟨hc.symm, hs.plus⟩
    · rcases List.suffix_cons_iff.mp hb with heq | hsuffix
      · obtain ⟨rfl, rfl⟩ := List.cons.inj heq
        exact hpercent rfl
      · exact hs.percent b hsuffix

/-- **What comes back is what was put in**, exactly for such a text. -/
theorem reread_eq_self_iff (s : Bytes) : reread s = s ↔ KeptInLink s := by
  induction s using reread.induct with
  | case1 =>
    refine iff_of_true rfl ⟨List.not_mem_nil, fun b hb => ?_⟩
    exact absurd (List.suffix_nil.mp hb) (List.cons_ne_nil 37 b)
  | case2 s ih =>
    rw [reread_percent_blank, keptInLink_cons]
    refine iff_of_false (fun h => absurd (List.cons.inj h).1 (by decide)) ?_
    rintro ⟨-, h, -⟩
    exact (h rfl).2 List.mem_cons_self
  | case3 c s hc ih =>
    rw [reread_hex_blank hc, keptInLink_cons]
    refine iff_of_false (fun h => ?_) ?_
    · rcases hread : readHex c 37 with _ | d
      · rw [hread] at h
        exact absurd (List.cons.inj h).1 (by decide)
      · rw [hread] at h
        have htail := (List.cons.inj (List.cons.inj h).2).2
        exact absurd (List.cons.inj htail).1 (by decide)
    · rintro ⟨-, h, -⟩
      have hlen := (h rfl).1
      simp at hlen
  | case4 c d s hc hd ih =>
    rw [reread_hex hc hd, keptInLink_cons]
    refine iff_of_false (fun h => ?_) ?_
    · have hlen := congrArg List.length h
      have hread := length_toList_le (readHex c d)
      have hs := length_reread_le s
      simp only [List.length_append, List.length_cons] at hlen
      omega
    · rintro ⟨-, h, -⟩
      have hlen := (h rfl).1
      simp at hlen
  | case5 s ih =>
    rw [reread_plus, keptInLink_cons]
    refine iff_of_false (fun h => absurd (List.cons.inj h).1 (by decide)) ?_
    rintro ⟨h, -⟩
    exact h rfl
  | case6 c s hspace hblank hhex hplus ih =>
    have hpercent : c = 37 → s.length ≤ 1 ∧ 32 ∉ s := by
      intro hc
      rcases s with _ | ⟨d, _ | ⟨e, s⟩⟩
      · exact ⟨Nat.zero_le 1, List.not_mem_nil⟩
      · refine ⟨le_rfl, fun hmem => ?_⟩
        exact hspace [] hc (by rw [List.mem_singleton.mp hmem])
      · exact (hhex d e s hc rfl).elim
    rw [reread_other hspace hhex hplus, keptInLink_cons, ← ih]
    exact ⟨fun h => ⟨hplus, hpercent, (List.cons.inj h).2⟩, fun h => by rw [h.2.2]⟩

/-- A digit is less than sixteen. -/
theorem toNat_lt_of_hexDigit {x d : UInt8} (h : hexDigit x = some d) : d.toNat < 16 := by
  rw [hexDigit] at h
  split_ifs at h with h1 h2 h3
  all_goals
    obtain rfl := Option.some.inj h
    simp only [Bool.and_eq_true, decide_eq_true_eq, UInt8.le_iff_toNat_le,
      UInt8.reduceToNat] at *
    rw [UInt8.toNat_sub]
    simp only [UInt8.reduceToNat]
    omega

/-- A percent sign is no digit. -/
theorem readHex_percent (c : UInt8) : readHex c 37 ≠ some 38 := by
  have hnone : hexDigit 37 = none := by decide
  intro h
  simp only [readHex, hnone, Option.map_none] at h
  split_ifs at h
  · rcases hc : hexDigit c with _ | d
    · simp [hc] at h
    · simp only [hc] at h
      split_ifs at h
      have hlt := toNat_lt_of_hexDigit hc
      rw [Option.some.inj h] at hlt
      exact absurd hlt (by decide)

/-- What does not get shorter has no ampersand that was not there. -/
theorem mem_of_mem_reread {s : Bytes} (hlen : (reread s).length = s.length)
    (h : 38 ∈ reread s) : 38 ∈ s := by
  induction s using reread.induct with
  | case1 => exact h
  | case2 s ih =>
    have hs := length_reread_le s
    rw [reread_percent_blank] at hlen
    simp only [List.length_cons] at hlen
    omega
  | case3 c s hc ih =>
    have hs := length_reread_le s
    rw [reread_hex_blank hc] at hlen h
    rcases hread : readHex c 37 with _ | d
    · rw [hread] at hlen
      simp only [Option.toList_none, List.nil_append, List.length_cons] at hlen
      omega
    · rw [hread] at hlen h
      simp only [Option.toList_some, List.singleton_append, List.length_cons] at hlen
      have hd : d ≠ 38 := fun heq => readHex_percent c (heq ▸ hread)
      have hmem : 38 ∈ reread s := by simpa [hd.symm] using h
      simp [ih (by omega) hmem]
  | case4 c d s hc hd ih =>
    have hs := length_reread_le s
    have hread := length_toList_le (readHex c d)
    rw [reread_hex hc hd] at hlen
    simp only [List.length_append, List.length_cons] at hlen
    omega
  | case5 s ih =>
    rw [reread_plus] at hlen h
    have hmem : 38 ∈ reread s := by simpa using h
    exact List.mem_cons_of_mem 43 (ih (Nat.succ.inj hlen) hmem)
  | case6 c s hspace hblank hhex hplus ih =>
    rw [reread_other hspace hhex hplus] at hlen h
    rcases List.mem_cons.mp h with rfl | hmem
    · exact List.mem_cons_self
    · exact List.mem_cons_of_mem c (ih (Nat.succ.inj hlen) hmem)

/-! ### The name of the user -/

theorem urlDecode_of_notMem {s : Bytes} (h : 37 ∉ s) (h' : 43 ∉ s) : urlDecode s = s := by
  induction s with
  | nil => rfl
  | cons c s ih =>
    rw [urlDecode_cons (List.ne_of_not_mem_cons h).symm (List.ne_of_not_mem_cons h').symm,
      ih (List.not_mem_of_not_mem_cons h) (List.not_mem_of_not_mem_cons h')]

/-- A percent sign takes two characters at most of what comes after it. -/
theorem exists_urlDecode_append (s : Bytes) (a b : UInt8) {t : Bytes} (h : 37 ∉ a :: b :: t)
    (h' : 43 ∉ a :: b :: t) : ∃ r, urlDecode (s ++ a :: b :: t) = r ++ t := by
  obtain ⟨hb, hb'⟩ := And.intro (List.not_mem_of_not_mem_cons h) (List.not_mem_of_not_mem_cons h')
  obtain ⟨ht, ht'⟩ := And.intro (List.not_mem_of_not_mem_cons hb) (List.not_mem_of_not_mem_cons hb')
  induction s using urlDecode.induct with
  | case1 => exact ⟨[a, b], urlDecode_of_notMem h h'⟩
  | case2 x y s ih =>
    obtain ⟨r, hr⟩ := ih
    refine ⟨(readHex x y).toList ++ r, ?_⟩
    rw [List.cons_append, List.cons_append, List.cons_append, urlDecode_percent, hr,
      List.append_assoc]
  | case3 s ih =>
    obtain ⟨r, hr⟩ := ih
    refine ⟨32 :: r, ?_⟩
    rw [List.cons_append, urlDecode, hr]
    rfl
  | case4 c s hhex hplus ih =>
    by_cases hc : c = 37
    · subst hc
      rcases s with _ | ⟨x, _ | ⟨y, s⟩⟩
      · refine ⟨(readHex a b).toList, ?_⟩
        rw [List.cons_append, List.nil_append, urlDecode_percent, urlDecode_of_notMem ht ht']
      · refine ⟨(readHex x a).toList ++ [b], ?_⟩
        rw [List.cons_append, List.cons_append, List.nil_append, urlDecode_percent,
          urlDecode_of_notMem hb hb', List.append_assoc]
        rfl
      · exact (hhex x y s rfl rfl).elim
    · obtain ⟨r, hr⟩ := ih
      refine ⟨c :: r, ?_⟩
      rw [List.cons_append, urlDecode_cons hc hplus, hr]
      rfl

/-- A name as `handleRequest` completes it. -/
def completedName (username : Bytes) : Bytes :=
  if 64 ∈ username then username else username ++ ascii "@localhost"

/-- What comes back without `@` was not a name with `@localhost` behind it. -/
theorem mem_of_reread_append {username : Bytes}
    (h : reread username ++ ascii "@localhost" = username) : 64 ∈ reread username := by
  have hsent : ∀ r t : Bytes, 32 ∉ t → reread username = r ++ t →
      spacesEncoded username = spacesEncoded r ++ (t ++ ascii "@localhost") := by
    intro r t ht heq
    have hblank : 32 ∉ t ++ ascii "@localhost" := by
      rw [List.mem_append]
      exact not_or.mpr ⟨ht, by decide⟩
    conv_lhs => rw [← h, heq, List.append_assoc, spacesEncoded_append]
    rw [spacesEncoded_of_notMem hblank]
  obtain ⟨r, hr⟩ : ∃ r, reread username = r ++ ascii "ocalhost" := by
    rw [← urlDecode_spacesEncoded, hsent _ [] List.not_mem_nil (List.append_nil _).symm]
    exact exists_urlDecode_append _ 64 108 (by decide) (by decide)
  obtain ⟨r', hr'⟩ : ∃ r', reread username = r' ++ ascii "alhost@localhost" := by
    rw [← urlDecode_spacesEncoded, hsent r _ (by decide) hr]
    exact exists_urlDecode_append _ 111 99 (by decide) (by decide)
  rw [hr']
  exact List.mem_append_right _ (by decide)

theorem completedName_reread_eq_iff (username : Bytes) :
    completedName (reread username) = username ↔ 64 ∈ username ∧ KeptInLink username := by
  rw [← reread_eq_self_iff, completedName]
  split_ifs with hat
  · exact ⟨fun h => ⟨h ▸ hat, h⟩, And.right⟩
  · refine iff_of_false (fun h => hat (mem_of_reread_append h)) ?_
    rintro ⟨hmem, h⟩
    exact hat (h.symm ▸ hmem)

/-- What stands before a part of a name that was cut off behind `username=`. -/
theorem exists_of_key {username q rest : Bytes}
    (h : ascii "username=" ++ username = q ++ 38 :: rest) : ∃ a, username = a ++ 38 :: rest := by
  rcases List.append_eq_append_iff.mp h with ⟨a, -, ha⟩ | ⟨b, hb, hrest⟩
  · exact ⟨a, ha⟩
  · rcases b with _ | ⟨c, b⟩
    · exact ⟨[], hrest.symm⟩
    · obtain ⟨rfl, -⟩ := List.cons.inj hrest
      have hmem : (38 : UInt8) ∈ ascii "username=" := by
        rw [hb]
        exact List.mem_append_right q List.mem_cons_self
      exact absurd hmem (by decide)

/-- A part of a name with an ampersand is not read as the whole. -/
theorem completedName_ne {username s : Bytes} (hamp : 38 ∈ username)
    (hs : ascii "username=" ++ s ∈ (ascii "username=" ++ username).splitOn 38) :
    completedName (reread s) ≠ username := by
  have hnot : 38 ∉ s := fun h => notMem_of_mem_splitOn hs (List.mem_append_right _ h)
  have hlen := length_reread_le s
  rw [completedName]
  split_ifs with hat
  · intro h
    have hlt := length_lt_of_mem_splitOn hs (List.mem_append_right _ hamp)
    rw [List.length_append, List.length_append] at hlt
    rw [h] at hlen
    omega
  · intro h
    obtain ⟨before, after, htext, hbefore, hafter⟩ := exists_of_mem_splitOn hs
    rcases hbefore with rfl | ⟨q, rfl⟩
    · -- the first part: the ampersand behind it would be one of `@localhost`
      rw [List.nil_append, List.append_assoc, List.append_right_inj] at htext
      rcases hafter with rfl | ⟨r, rfl⟩
      · rw [List.append_nil] at htext
        exact hnot (htext ▸ hamp)
      · rw [htext] at h
        rcases List.append_eq_append_iff.mp h with ⟨a, -, hrest⟩ | ⟨a, ha, hrest⟩
        · have hmem : (38 : UInt8) ∈ ascii "@localhost" := by
            rw [hrest]
            exact List.mem_append_right a List.mem_cons_self
          exact absurd hmem (by decide)
        · obtain rfl : a = [] := by
            rw [ha, List.length_append] at hlen
            exact List.eq_nil_of_length_eq_zero (by omega)
          exact absurd (List.cons.inj hrest).1 (by decide)
    · -- a later part: there is no room for anything else in the name
      have hsplit : ascii "username=" ++ username =
          q ++ 38 :: (ascii "username=" ++ s ++ after) := by
        rw [htext, List.append_assoc]
        rfl
      obtain ⟨a, ha⟩ := exists_of_key hsplit
      have hroom : (reread s).length = s.length ∧ a = [] := by
        have hsize := congrArg List.length (h.trans ha)
        have hword : (ascii "@localhost").length = 10 := by decide
        have hkey : (ascii "username=").length = 9 := by decide
        simp only [List.length_append, List.length_cons, hword, hkey] at hsize
        exact ⟨by omega, List.eq_nil_of_length_eq_zero (by omega)⟩
      rw [ha, hroom.2, List.nil_append] at h
      rcases hread : reread s with _ | ⟨c, r⟩
      · rw [hread] at h
        exact absurd (List.cons.inj h).1 (by decide)
      · rw [hread] at h
        obtain ⟨rfl, -⟩ := List.cons.inj h
        exact hnot (mem_of_mem_reread hroom.1 (hread ▸ List.mem_cons_self))

/-! ### The query as it arrives -/

section Arrives

variable (id folder username : Bytes)

/-- The query, as the browser sends it. -/
def sentQuery : Bytes := spacesEncoded (linkQuery id folder username)

/-- The pieces of the query. -/
theorem splitOn_sentQuery : (sentQuery id folder username).splitOn 38 =
    ((ascii "id=" ++ id).splitOn 38 ++ ((ascii "folder=" ++ folder).splitOn 38 ++
      (ascii "username=" ++ username).splitOn 38)).map spacesEncoded := by
  have hquery : linkQuery id folder username = (ascii "id=" ++ id) ++ 38 ::
      ((ascii "folder=" ++ folder) ++ 38 :: (ascii "username=" ++ username)) := by
    simp [linkQuery, ascii]
  rw [sentQuery, splitOn_spacesEncoded, hquery, List.splitOn_append_cons_self,
    List.splitOn_append_cons_self]

variable {id folder username}

/-- A piece that is sent with a key is one that was put in with it. -/
theorem exists_of_sent_piece {key v w : Bytes} (hkey : 37 ∉ key)
    (h : spacesEncoded w = key ++ 61 :: v) : ∃ s, w = key ++ 61 :: s ∧ spacesEncoded s = v := by
  have hword : 37 ∉ key ++ [61] := by
    rw [List.mem_append]
    exact not_or.mpr ⟨hkey, by decide⟩
  have hsplit : spacesEncoded w = key ++ [61] ++ v := by rw [h, List.append_assoc]; rfl
  obtain ⟨s, rfl, hs⟩ := exists_of_spacesEncoded_eq hword hsplit
  exact ⟨s, List.append_assoc _ _ _, hs⟩

/-- The first assignment of a query. -/
theorem exists_parseQueryString {key : Bytes} (text : Bytes) (hkey : 61 ∉ key) :
    ∃ v rest, parseQueryString (key ++ 61 :: text) = (key, v) :: rest := by
  have hcut : cut (ascii "=") (key ++ 61 :: text) = some (key, text) :=
    cut_of_firstBehind (firstBehind_of_notMem hkey) text
  obtain ⟨fuel, hfuel⟩ : ∃ m, (key ++ 61 :: text).length = m + 1 :=
    ⟨key.length + text.length, by simp; omega⟩
  rw [parseQueryString, hfuel, parseQueryStringAux]
  simp only [hcut]
  rcases cut (ascii "&") text with _ | ⟨value, more⟩
  · exact ⟨_, _, rfl⟩
  · exact ⟨_, _, rfl⟩

/-- The assignments of the last part of the query come last. -/
theorem exists_parseQueryString_sentQuery (hfolder : 38 ∉ folder) :
    ∃ params, parseQueryString (sentQuery id folder username) =
      params ++ parseQueryString (spacesEncoded (ascii "username=" ++ username)) := by
  have hpiece : 38 ∉ ascii "folder=" ++ folder := by
    rw [List.mem_append]
    exact not_or.mpr ⟨by decide, hfolder⟩
  have heq : 61 ∈ spacesEncoded (ascii "folder=" ++ folder) := by
    rw [mem_spacesEncoded (by decide) (by decide)]
    exact List.mem_append_left _ (by decide)
  refine ⟨assignments [] (((ascii "id=" ++ id).splitOn 38).map spacesEncoded ++
    [spacesEncoded (ascii "folder=" ++ folder)]), ?_⟩
  rw [parseQueryString_eq, parseQueryString_eq, splitOn_sentQuery, splitOn_spacesEncoded,
    List.splitOn_eq_singleton hpiece, List.map_append, List.singleton_append, List.map_cons,
    assignments_append heq]

/-- The name of the user is read from what was put in for it. -/
theorem exists_queryUsername (hfolder : 38 ∉ folder) :
    ∃ s, ascii "username=" ++ s ∈ (ascii "username=" ++ username).splitOn 38 ∧
      queryUsername (sentQuery id folder username) = completedName (reread s) := by
  obtain ⟨params, hparams⟩ := @exists_parseQueryString_sentQuery id folder username hfolder
  have hsent : spacesEncoded (ascii "username=" ++ username) =
      ascii "username" ++ 61 :: spacesEncoded username := by
    rw [spacesEncoded_append, spacesEncoded_of_notMem (by decide)]
    rfl
  obtain ⟨v₀, rest, hfirst⟩ := @exists_parseQueryString (ascii "username")
    (spacesEncoded username) (by decide)
  rw [← hsent] at hfirst
  obtain ⟨v, hv⟩ : ∃ v, param (parseQueryString (spacesEncoded (ascii "username=" ++ username)))
      (ascii "username") = some v := by
    rw [hfirst, param_cons, List.lookup_cons_self]
    rcases param rest (ascii "username") with _ | v
    · exact ⟨v₀, rfl⟩
    · exact ⟨v, rfl⟩
  have hmem := mem_of_param hv
  rw [parseQueryString_eq, splitOn_spacesEncoded] at hmem
  obtain ⟨w, hs, hw⟩ := List.mem_map.mp (mem_of_mem_assignments (Or.inl rfl) (by decide) hmem)
  obtain ⟨s, rfl, rfl⟩ := exists_of_sent_piece (by decide) hw
  refine ⟨s, hs, ?_⟩
  have hread : param (parseQueryString (sentQuery id folder username)) (ascii "username") =
      some (spacesEncoded s) := by
    rw [hparams, param_append, hv]
    rfl
  show completedName (((param _ (ascii "username")).map urlDecode).getD (ascii "test")) = _
  rw [hread, Option.map_some, Option.getD_some, urlDecode_spacesEncoded]

/-- A name with an ampersand is not read. -/
theorem queryUsername_ne (hfolder : 38 ∉ folder) (hamp : 38 ∈ username) :
    queryUsername (sentQuery id folder username) ≠ username := by
  obtain ⟨s, hs, hread⟩ := @exists_queryUsername id folder username hfolder
  rw [hread]
  exact completedName_ne hamp hs

/-- What is put in has no ampersand if its value has none. -/
theorem notMem_piece {key value : Bytes} (hkey : 38 ∉ key) (hvalue : 38 ∉ value) :
    38 ∉ key ++ value := by
  rw [List.mem_append]
  exact not_or.mpr ⟨hkey, hvalue⟩

/-- An id with an ampersand is not read, if the name of the user has none. -/
theorem queryEmailId_ne (hid : IsEmailId id) (hfolder : 38 ∉ folder) (hamp : 38 ∈ id)
    (huser : 38 ∉ username) : queryEmailId (sentQuery id folder username) ≠ id := by
  rw [queryEmailId]
  rcases hparam : param (parseQueryString (sentQuery id folder username)) (ascii "id") with _ | v
  · obtain ⟨rest, rfl⟩ := hid
    exact fun h => absurd (List.cons.inj h).1 (by decide)
  · have hmem := mem_of_param hparam
    rw [parseQueryString_eq] at hmem
    have hpiece := mem_of_mem_assignments (Or.inl rfl) (by decide) hmem
    rw [splitOn_sentQuery] at hpiece
    obtain ⟨w, hw, hsent⟩ := List.mem_map.mp hpiece
    obtain ⟨s, rfl, rfl⟩ := exists_of_sent_piece (by decide) hsent
    rw [List.splitOn_eq_singleton (notMem_piece (by decide) hfolder),
      List.splitOn_eq_singleton (notMem_piece (by decide) huser), List.mem_append, List.mem_append,
      List.mem_singleton, List.mem_singleton] at hw
    rcases hw with hw | hw | hw
    · have hlt := length_lt_of_mem_splitOn hw (List.mem_append_right _ hamp)
      have hle := length_reread_le s
      rw [Option.map_some, Option.getD_some, urlDecode_spacesEncoded]
      intro h
      rw [h] at hle
      have hkey : (ascii "id=").length = (ascii "id").length + 1 := by decide
      simp only [List.length_append, List.length_cons, hkey] at hlt
      omega
    · exact absurd (List.cons.inj hw).1 (by decide)
    · exact absurd (List.cons.inj hw).1 (by decide)

/-- A query whose parts have no ampersand. -/
theorem parseQueryString_sentQuery (hid : 38 ∉ id) (hfolder : 38 ∉ folder)
    (huser : 38 ∉ username) : parseQueryString (sentQuery id folder username) =
      [(ascii "id", spacesEncoded id), (ascii "folder", spacesEncoded folder),
        (ascii "username", spacesEncoded username)] := by
  have hsent : ∀ {key value : Bytes}, 32 ∉ key →
      spacesEncoded (key ++ value) = key ++ spacesEncoded value := by
    intro key value hkey
    rw [spacesEncoded_append, spacesEncoded_of_notMem hkey]
  rw [parseQueryString_eq, splitOn_sentQuery,
    List.splitOn_eq_singleton (notMem_piece (by decide) hid),
    List.splitOn_eq_singleton (notMem_piece (by decide) hfolder),
    List.splitOn_eq_singleton (notMem_piece (by decide) huser)]
  simp only [List.singleton_append, List.map_cons, List.map_nil,
    hsent (by decide : 32 ∉ ascii "id="), hsent (by decide : 32 ∉ ascii "folder="),
    hsent (by decide : 32 ∉ ascii "username=")]
  exact @assignments_fieldText [(ascii "id", spacesEncoded id),
    (ascii "folder", spacesEncoded folder), (ascii "username", spacesEncoded username)]
    (by simp [ascii])

/-- What is read of a query whose parts have no ampersand. -/
theorem query_sentQuery (hid : 38 ∉ id) (hfolder : 38 ∉ folder) (huser : 38 ∉ username) :
    queryUsername (sentQuery id folder username) = completedName (reread username) ∧
      queryEmailId (sentQuery id folder username) = reread id ∧
      queryFolder (sentQuery id folder username) = spacesEncoded folder := by
  have hparams := parseQueryString_sentQuery hid hfolder huser
  refine ⟨?_, ?_, ?_⟩
  · rw [queryUsername, hparams, ← urlDecode_spacesEncoded username]
    rfl
  · rw [queryEmailId, hparams, ← urlDecode_spacesEncoded id]
    rfl
  · rw [queryFolder, hparams]
    rfl

end Arrives

/-! ### Ids in links -/

/-- The words of the frame of an id. -/
def frameWords : List Bytes :=
  [ascii "sender:", ascii "recipient:", ascii "subject:", ascii "timestamp:", ascii ";"]

/-- The characters of an id, apart from those of its frame. -/
theorem MailRecord.mem_id (m : MailRecord) {c : UInt8} (hframe : ∀ w ∈ frameWords, c ∉ w) :
    c ∈ m.id ↔ ∃ text ∈ [m.sender, m.recipient, m.subject, m.timestamp], c ∈ text := by
  simp only [frameWords, List.forall_mem_cons] at hframe
  obtain ⟨hsender, hrecipient, hsubject, htimestamp, hend, -⟩ := hframe
  rw [MailRecord.id, encryptMetadata, List.mem_reverse, MailRecord.metadata, createMetadata]
  simp only [List.mem_append, hsender, hrecipient, hsubject, htimestamp, hend, false_or, or_false,
    List.exists_mem_cons_iff, List.not_mem_nil, false_and, exists_false, or_assoc]

/-- An id is kept exactly if it has neither a percent sign nor a plus: its last characters
are those of its frame. -/
theorem MailRecord.keptInLink_id (m : MailRecord) : KeptInLink m.id ↔ 37 ∉ m.id ∧ 43 ∉ m.id := by
  constructor
  · rintro ⟨hplus, hpercent⟩
    refine ⟨fun hmem => ?_, hplus⟩
    obtain ⟨r, hr⟩ : (ascii "sender:").reverse <:+ m.id := by
      rw [MailRecord.id, encryptMetadata, List.reverse_suffix, MailRecord.metadata, createMetadata]
      simp only [List.append_assoc]
      exact List.prefix_append _ _
    rw [← hr, List.mem_append] at hmem
    obtain ⟨a, b, rfl⟩ := List.append_of_mem (hmem.resolve_right (by decide))
    have hlen := (hpercent (b ++ (ascii "sender:").reverse) ⟨a, by rw [← hr]; simp⟩).1
    rw [List.length_append, List.length_reverse] at hlen
    have hseven : (ascii "sender:").length = 7 := by decide
    omega
  · rintro ⟨hpercent, hplus⟩
    exact ⟨hplus, fun b hb => absurd (hb.subset List.mem_cons_self) hpercent⟩

/-! ### Where the links lead -/

section Links

variable {master : Master} (hup : master.Up) {kvs : Tablet}

include hup

/-- A message is read in the row of its folder. -/
theorem calls_viewEmail (username id folder : Bytes) :
    (viewEmail username id folder).calls (Call.exec master) kvs =
      [.lookup (folderRow username folder), .get (folderRow username folder) id] := by
  have hreach := isErr_lookup hup (folderRow username folder)
  show Call.lookup (folderRow username folder) ::
    (clientGet (!isErr (clientText (master (folderRow username folder)))) _ _ >>= _ :
      Handler MailPage).calls _ _ = _
  rw [hreach]
  show _ :: Call.get (folderRow username folder) id :: (if _ then _ else _ : Handler MailPage).calls
    _ _ = _
  split_ifs
  · rfl
  · rfl

/-- A message is deleted from the row of its folder. -/
theorem calls_deleteEmail (username id folder : Bytes) :
    ((deleteEmail username id folder).calls (Call.exec master) kvs).take 2 =
      [.lookup (folderRow username folder), .update (.delete (folderRow username folder) id)] := by
  have hreach := isErr_lookup hup (folderRow username folder)
  show List.take 2 (Call.lookup (folderRow username folder) ::
    (clientDelete (!isErr (clientText (master (folderRow username folder)))) _ _ >>= _ :
      Handler MailPage).calls _ _) = _
  rw [hreach]
  rfl

end Links

/-- **The two links of a message lead back to it**: they are about its id in the row of
the folder of the user, and about nothing else. -/
structure LinksLeadBack (master : Master) (kvs : Tablet) (env : Surroundings)
    (id folder username : Bytes) : Prop where
  email : ∀ postData, (handleRequest env (ascii "/email") .get (sentQuery id folder username)
    postData).calls (Call.exec master) kvs =
      [.lookup (folderRow username folder), .get (folderRow username folder) id]
  delete : ∀ postData, ((handleRequest env (ascii "/delete") .post (sentQuery id folder username)
    postData).calls (Call.exec master) kvs).take 2 =
      [.lookup (folderRow username folder), .update (.delete (folderRow username folder) id)]

/-- The rows of different users are different. -/
theorem eq_of_folderRow {username username' folder folder' : Bytes}
    (h : folderRow username folder = folderRow username' folder') : username = username' := by
  rw [folderRow, folderRow] at h
  split_ifs at h
  · exact List.append_cancel_left h
  · exact absurd (List.cons.inj h).1 (by decide)
  · exact absurd (List.cons.inj h).1 (by decide)
  · exact List.append_cancel_left h

/-- **The links of a message lead back to it exactly if** none of its parts has an
ampersand, a plus or a percent sign, and the name of the user has an `@`, no ampersand and
is kept in a link. -/
theorem inboxLinks_iff {master : Master} (hup : master.Up) (kvs : Tablet) (env : Surroundings)
    (m : MailRecord) (folder username : Bytes)
    (hfolder : folder = ascii "inbox" ∨ folder = ascii "sent") :
    LinksLeadBack master kvs env m.id folder username ↔
      (∀ text ∈ [m.sender, m.recipient, m.subject, m.timestamp],
        38 ∉ text ∧ 43 ∉ text ∧ 37 ∉ text) ∧
      64 ∈ username ∧ 38 ∉ username ∧ KeptInLink username := by
  have hid := m.isEmailId_id
  have hplain : 38 ∉ folder ∧ spacesEncoded folder = folder := by
    rcases hfolder with rfl | rfl
    · exact ⟨by decide, by decide⟩
    · exact ⟨by decide, by decide⟩
  have hparts : (∀ text ∈ [m.sender, m.recipient, m.subject, m.timestamp],
      38 ∉ text ∧ 43 ∉ text ∧ 37 ∉ text) ↔ 38 ∉ m.id ∧ 43 ∉ m.id ∧ 37 ∉ m.id := by
    rw [m.mem_id (by decide), m.mem_id (by decide), m.mem_id (by decide)]
    simp only [not_exists, not_and]
    exact ⟨fun h => ⟨fun t ht => (h t ht).1, fun t ht => (h t ht).2.1, fun t ht => (h t ht).2.2⟩,
      fun h t ht => ⟨h.1 t ht, h.2.1 t ht, h.2.2 t ht⟩⟩
  rw [hparts]
  constructor
  · rintro ⟨hemail, -⟩
    have hcalls := hemail []
    rw [handleRequest_email, calls_viewEmail hup] at hcalls
    obtain ⟨hlookup, hget⟩ := List.cons.inj hcalls
    have huser := eq_of_folderRow (Call.lookup.inj hlookup)
    have hread := (Call.get.inj (List.cons.inj hget).1).2
    have hamp : 38 ∉ username := fun h => queryUsername_ne hplain.1 h huser
    have hidamp : 38 ∉ m.id := fun h => queryEmailId_ne hid hplain.1 h hamp hread
    obtain ⟨hquser, hqid, -⟩ := query_sentQuery hidamp hplain.1 hamp
    rw [hquser, completedName_reread_eq_iff] at huser
    rw [hqid, reread_eq_self_iff, m.keptInLink_id] at hread
    exact ⟨⟨hidamp, hread.2, hread.1⟩, huser.1, hamp, huser.2⟩
  · rintro ⟨⟨hidamp, hplus, hpercent⟩, hat, hamp, hkept⟩
    obtain ⟨hquser, hqid, hqfolder⟩ := query_sentQuery hidamp hplain.1 hamp
    have huser := (completedName_reread_eq_iff username).mpr ⟨hat, hkept⟩
    have hread := (reread_eq_self_iff m.id).mpr (m.keptInLink_id.mpr ⟨hpercent, hplus⟩)
    constructor
    · intro postData
      rw [handleRequest_email, calls_viewEmail hup, hquser, hqid, hqfolder, huser, hread, hplain.2]
    · intro postData
      rw [handleRequest_delete, calls_deleteEmail hup, hquser, hqid, hqfolder, huser, hread,
        hplain.2]

/-- **A plus in the subject** is read as a blank: the link is about another id. -/
theorem inboxLinks_plus :
    ¬LinksLeadBack Master.first ∅ ⟨[], true⟩ (recordAbout "1+1").id (ascii "inbox")
      (ascii "bob@localhost") := by
  rintro ⟨hemail, -⟩
  have hcalls := hemail []
  rw [handleRequest_email, calls_viewEmail Master.up_first] at hcalls
  have hread := (Call.get.inj (List.cons.inj (List.cons.inj hcalls).2).1).2
  revert hread
  decide +kernel

theorem inboxLinks_plain :
    LinksLeadBack Master.first ∅ ⟨[], true⟩ (recordAbout "x").id (ascii "inbox")
      (ascii "bob@localhost") ↔
      (∀ text ∈ [(recordAbout "x").sender, (recordAbout "x").recipient, (recordAbout "x").subject,
        (recordAbout "x").timestamp], 38 ∉ text ∧ 43 ∉ text ∧ 37 ∉ text) ∧
      64 ∈ ascii "bob@localhost" ∧ 38 ∉ ascii "bob@localhost" ∧
        KeptInLink (ascii "bob@localhost") :=
  inboxLinks_iff Master.up_first ∅ ⟨[], true⟩ (recordAbout "x") (ascii "inbox")
    (ascii "bob@localhost") (Or.inl rfl)

end PennCloud
