import Minibase.Cpio.Lines

/-!
# The lists that are read as they are written

Which lists `parse_input` does right, exactly (`Cpio.parseInput_iff`): the strings of each line
end where its text does (`Cpio.Kept`), and nothing is left behind a line that has more than
blank lines after it (`Cpio.Clean`). Only the line after a comment or a prefix suffers from
blanks at its end.
-/

namespace Minibase.Cpio

open List

/-- The line is seen as it is written, with `rest` after it in the buffer. -/
def Kept (rest d : List UInt8) : Prop :=
  match trim d with
  | [] => True
  | lead :: t =>
    if lead = 0x23 ∨ lead = 0x3E then True
    else 0 ∉ lead :: t ∧
      -- a second word that is missing is looked for behind the line
      if (lead = 0x40 ∨ lead = 0x3D) ∧ t.dropWhile (! isSpace ·) = [] then
        ∀ c ∈ (behind d ++ rest).head?, c = 0
      else trail d = []

/-- The line is a prefix that is refused. -/
def BadPath (d : List UInt8) : Prop :=
  ∃ t, trim d = 0x3E :: t ∧ ∀ c ∈ (t.dropWhile isSpace).head?, c = slash

/-- **No line is lost or changed**, as far as the list is read: `left` is what was left
behind the line before. -/
def Clean : List UInt8 → List (List UInt8) → Prop
  | left, [] => left = []
  | left, d :: ds =>
    PAGE ≤ d.length ∨
      (left ++ d).length < PAGE ∧ (trim d = [] ∨ left = [] ∧ Kept (joined newline ds []) d) ∧
        (BadPath d ∨ Clean (behind (left ++ d)) ds)

/-! ### Strings -/

lemma string_eq_nil {l : List UInt8} : string l = [] ↔ ∀ c ∈ l.head?, c = 0 := by
  cases l with
  | nil => exact ⟨(fun _ _ h => nomatch h), fun _ => rfl⟩
  | cons c l =>
    rw [string, takeWhile_cons]
    by_cases hc : c = 0
    · simp [hc]
    · simp [hc]

/-- Blanks at the end of a string show. -/
theorem string_append_eq_iff {f g : List UInt8} (hg : ∀ c ∈ g, isSpace c = true) :
    string (f ++ g) = f ↔ 0 ∉ f ∧ g = [] := by
  have hg0 : 0 ∉ g := fun h => absurd (hg 0 h) (by decide)
  constructor
  · intro h
    by_cases h0 : 0 ∈ f
    · -- the string ends before the text does
      have hlen : (string (f ++ g)).length < f.length := by
        obtain ⟨a, b, rfl⟩ := append_of_mem h0
        rw [append_assoc, cons_append, string_append_zero, length_append, length_cons]
        have := (takeWhile_sublist (l := a) (· ≠ 0)).length_le
        rw [string]
        omega
      rw [h] at hlen
      omega
    · have hall : 0 ∉ f ++ g := by
        rw [mem_append, not_or]
        exact ⟨h0, hg0⟩
      rw [string_eq_self.mpr hall] at h
      exact ⟨h0, append_right_eq_self.mp h⟩
  · rintro ⟨h0, rfl⟩
    rw [append_nil, string_eq_self.mpr h0]

variable {d : List UInt8}

lemma isSpace_of_mem_trail : ∀ c ∈ trail d, isSpace c = true := by
  intro c hc
  exact mem_rtakeWhile_imp hc

lemma behind_append (d rest : List UInt8) : behind d ++ rest = (trail d ++ 0 :: rest).tail := by
  rw [behind]
  cases trail d
  · rfl
  · simp

/-! ### One line -/

/-- `take_whole_line` sees the text. -/
theorem whole_eq_iff {text trail : List UInt8} (h : ∀ c ∈ trail, isSpace c = true) :
    whole text trail = ⟨basename text, (basename text).length, text, text.length⟩ ↔
      0 ∉ text ∧ trail = [] := by
  rw [← string_append_eq_iff h, whole]
  constructor
  · intro heq
    exact congrArg Entry.path heq
  · intro heq
    rw [heq]

/-- The words of a text and the blanks between them are all of it. -/
theorem zero_not_mem_iff (t : List UInt8) :
    0 ∉ t ↔ 0 ∉ t.takeWhile (! isSpace ·) ∧ 0 ∉ (t.dropWhile (! isSpace ·)).dropWhile isSpace := by
  obtain ⟨f, hf⟩ : ∃ f, t.takeWhile (! isSpace ·) = f := ⟨_, rfl⟩
  obtain ⟨r, hr⟩ : ∃ r, t.dropWhile (! isSpace ·) = r := ⟨_, rfl⟩
  have ht : f ++ r = t := by
    rw [← hf, ← hr]
    exact takeWhile_append_dropWhile
  have hblank : 0 ∉ r.takeWhile isSpace := fun h =>
    absurd (mem_takeWhile_imp h) (by decide)
  have hrest : 0 ∉ r ↔ 0 ∉ r.dropWhile isSpace := by
    conv_lhs => rw [← takeWhile_append_dropWhile (p := isSpace) (l := r), mem_append, not_or]
    exact and_iff_right hblank
  rw [hf, hr, ← hrest, ← ht, mem_append, not_or]

variable {t : List UInt8}

/-- `take_name_path` sees the words. -/
theorem taken_eq_iff {rest : List UInt8} :
    taken t (trail d) rest = fields t ↔
      0 ∉ t ∧ if t.dropWhile (! isSpace ·) = [] then ∀ c ∈ (behind d ++ rest).head?, c = 0
        else trail d = [] := by
  have hfields : taken t (trail d) rest = fields t ↔
      (taken t (trail d) rest).name = (fields t).name ∧
        (taken t (trail d) rest).path = (fields t).path := by
    constructor
    · intro h
      rw [h]
      exact ⟨rfl, rfl⟩
    · rintro ⟨h1, h2⟩
      rw [taken] at h1 h2 ⊢
      rw [fields] at h1 h2 ⊢
      dsimp only at h1 h2 ⊢
      rw [h1, h2]
  rw [hfields, zero_not_mem_iff t]
  have hname : (taken t (trail d) rest).name = (fields t).name ↔ 0 ∉ t.takeWhile (! isSpace ·) :=
    string_eq_self
  rw [hname, and_assoc]
  refine and_congr_right fun _ => ?_
  split_ifs with hd
  · have hpath : (taken t (trail d) rest).path = string ((trail d ++ 0 :: rest).tail) := if_pos hd
    have hnone : (fields t).path = [] := by
      rw [fields, hd]
      rfl
    rw [hpath, hnone, ← behind_append, string_eq_nil, hd]
    exact ⟨fun h => ⟨not_mem_nil, h⟩, And.right⟩
  · have hpath : (taken t (trail d) rest).path =
        string ((t.dropWhile (! isSpace ·)).dropWhile isSpace ++ trail d) := if_neg hd
    rw [hpath]
    exact string_append_eq_iff isSpace_of_mem_trail

variable {n : ℕ}

/-- A line that is not too long. -/
theorem meant_eq (h : d.length < PAGE) :
    meant n d =
      match trim d with
      | [] => .ok .blank
      | lead :: t =>
        if lead = 0x23 then .ok .comment
        else if lead = 0x3E then pathOf (n + 1) t
        else if lead = 0x40 then .ok (.link (fields t))
        else if lead = 0x3D then .ok (.copy (fields t))
        else .ok (.file ⟨basename (lead :: t), (basename (lead :: t)).length, lead :: t,
          (lead :: t).length⟩) := by
  rw [meant, if_neg (Nat.not_le.mpr h)]
  rfl

/-- **A line is done right** if it is seen as it is written. -/
theorem handled_eq_iff {rest : List UInt8} (h : d.length < PAGE) :
    handled (n + 1) (trim d) (trail d) rest = meant n d ↔ Kept rest d := by
  rw [meant_eq h, Kept]
  rcases trim d with - | ⟨lead, t⟩
  · exact ⟨fun _ => trivial, fun _ => rfl⟩
  rw [handled]
  dsimp only
  by_cases h0 : lead = 0
  · -- a line that starts with a zero is taken for an empty one
    subst h0
    simp
  by_cases hhash : lead = 0x23
  · subst hhash
    simp
  by_cases hgt : lead = 0x3E
  · subst hgt
    simp
  have hmem : 0 ∉ lead :: t ↔ 0 ∉ t := by simp [Ne.symm h0]
  have hneither : ¬ (lead = 0x23 ∨ lead = 0x3E) := not_or.mpr ⟨hhash, hgt⟩
  rw [if_neg h0, if_neg hhash, if_neg hhash, if_neg hgt, if_neg hgt, if_neg hneither]
  by_cases hat : lead = 0x40
  · rw [if_pos hat, if_pos hat, hmem]
    simp only [hat, true_or, true_and]
    rw [← taken_eq_iff]
    simp
  by_cases heq : lead = 0x3D
  · rw [if_neg hat, if_pos heq, if_neg hat, if_pos heq, hmem]
    simp only [heq, or_true, true_and]
    rw [← taken_eq_iff]
    simp
  have hplain : ¬ ((lead = 0x40 ∨ lead = 0x3D) ∧ t.dropWhile (! isSpace ·) = []) := by
    rintro ⟨h1 | h1, -⟩
    · exact hat h1
    · exact heq h1
  rw [if_neg hat, if_neg heq, if_neg hat, if_neg heq, if_neg hplain,
    ← whole_eq_iff isSpace_of_mem_trail]
  simp

lemma pathOf_ne_blank : pathOf n t ≠ .ok .blank := by
  rw [pathOf]
  rcases t.dropWhile isSpace with - | ⟨c, p⟩
  · exact fun h => by cases h
  · dsimp only
    split_ifs
    · exact fun h => by cases h
    · intro h
      cases h

lemma pathOf_error_line {e : Syntax} (h : pathOf n t = .error e) : e.line = n := by
  rw [pathOf] at h
  rcases hd : t.dropWhile isSpace with - | ⟨c, p⟩
  · rw [hd] at h
    cases h
    rfl
  · rw [hd] at h
    dsimp only at h
    split_ifs at h
    cases h
    rfl

lemma pathOf_error_iff :
    (∃ e, pathOf n t = .error e) ↔ ∀ c ∈ (t.dropWhile isSpace).head?, c = slash := by
  rw [pathOf]
  rcases t.dropWhile isSpace with - | ⟨c, p⟩
  · exact ⟨fun _ _ hc => (by cases hc), fun _ => ⟨_, rfl⟩⟩
  · by_cases hc : c = slash
    · simp [hc]
    · simp [hc]

/-- What refuses a line that is not too long. -/
theorem meant_error_iff (h : d.length < PAGE) : (∃ e, meant n d = .error e) ↔ BadPath d := by
  rw [meant_eq h, BadPath]
  rcases trim d with - | ⟨lead, t⟩
  · simp
  by_cases hhash : lead = 0x23
  · subst hhash
    simp
  by_cases hgt : lead = 0x3E
  · subst hgt
    simp only [cons.injEq, true_and, exists_eq_left']
    exact pathOf_error_iff
  dsimp only
  rw [if_neg hhash, if_neg hgt]
  refine iff_of_false ?_ ?_
  · rintro ⟨e, he⟩
    split_ifs at he
  · rintro ⟨t', ht, -⟩
    exact hgt (cons.inj ht).1

/-- A line that is refused for what it says is counted already. -/
theorem meant_error_line (h : d.length < PAGE) {e : Syntax}
    (he : meant n d = .error e) : e.line = n + 1 := by
  rw [meant_eq h] at he
  rcases htrim : trim d with - | ⟨lead, t⟩
  · rw [htrim] at he
    cases he
  rw [htrim] at he
  dsimp only at he
  split_ifs at he
  exact pathOf_error_line he

/-! ### All lines -/

/-- What a cursor may be left before. -/
def Left (left : List UInt8) : Prop :=
  left = [] ∨ ∃ bl : List UInt8, (∀ c ∈ bl, isSpace c = true) ∧ left = bl ++ [0]

lemma left_behind (d : List UInt8) : Left (behind d) := by
  rw [behind]
  rcases htrail : trail d with - | ⟨b, bl⟩
  · exact .inl rfl
  · refine .inr ⟨bl, fun c hc => ?_, rfl⟩
    exact isSpace_of_mem_trail c (htrail ▸ mem_cons_of_mem b hc)

/-- **A line with something left before it** is taken for an empty one. -/
theorem handled_left {left : List UInt8} (h : Left left) (hne : left ≠ []) (n : ℕ)
    (d tr rest : List UInt8) : handled n (trim (left ++ d)) tr rest = .ok .blank := by
  obtain rfl | ⟨bl, hbl, rfl⟩ := h
  · exact absurd rfl hne
  have hcore : (bl ++ [0] ++ d).dropWhile isSpace = 0 :: d := by
    rw [append_assoc, dropWhile_append_of_pos hbl]
    rfl
  have hne' : (0 :: d).rdropWhile isSpace ≠ [] := fun h0 =>
    absurd (rdropWhile_eq_nil_iff.mp h0 0 mem_cons_self) (by decide)
  obtain ⟨lead, t, ht⟩ := exists_cons_of_ne_nil hne'
  obtain ⟨s, hs⟩ := rdropWhile_prefix isSpace (0 :: d)
  rw [ht] at hs
  obtain rfl : lead = 0 := (cons.inj hs).1
  rw [trim, hcore, ht, handled, if_pos rfl]

/-- Only a line of blanks is meant to be empty. -/
theorem meant_blank_iff (h : d.length < PAGE) : meant n d = .ok .blank ↔ trim d = [] := by
  rw [meant_eq h]
  rcases trim d with - | ⟨lead, t⟩
  · exact ⟨fun _ => rfl, fun _ => rfl⟩
  refine iff_of_false (fun heq => ?_) (cons_ne_nil lead t)
  dsimp only at heq
  split_ifs at heq
  · cases heq
  · exact pathOf_ne_blank heq
  all_goals cases heq

/-- Two runs that go on after their first line. -/
theorem cons_eq_iff {x y : Except Syntax Event} {r s : List Event × Option Syntax} : ((match x with
      | .error e => ([], some e)
      | .ok ev => (ev :: r.1, r.2)) : List Event × Option Syntax) = (match y with
          | .error e => ([], some e)
          | .ok ev => (ev :: s.1, s.2)) ↔
      x = y ∧ ((∃ e, y = .error e) ∨ r = s) := by
  rcases x with e | ev <;> rcases y with e' | ev'
  · simp
  · simp
  · simp
  · simp [Prod.ext_iff, and_assoc]

/-- **The run over the lines** is what they mean exactly if none is lost or changed. -/
theorem runAll_iff {left : List UInt8} (hleft : Left left) (n : ℕ) (ds : List (List UInt8)) :
    runAll left n ds = meantAll n ds ↔ Clean left ds := by
  induction ds generalizing left n with
  | nil =>
    rw [runAll, meantAll, Clean]
    by_cases h : left = []
    · simp [h]
    · simp [h]
  | cons d ds ih =>
    rw [Clean]
    rcases lt_or_ge d.length PAGE with hd | hd
    · have hnot : ¬ PAGE ≤ d.length := Nat.not_le.mpr hd
      rcases lt_or_ge (left ++ d).length PAGE with hseg | hseg
      · have hline : handled (n + 1) (trim (left ++ d)) (trail (left ++ d)) (joined newline ds []) =
            meant n d ↔ trim d = [] ∨ left = [] ∧ Kept (joined newline ds []) d := by
          by_cases h : left = []
          · subst h
            rw [nil_append, handled_eq_iff hd]
            refine ⟨fun h => .inr ⟨rfl, h⟩, ?_⟩
            rintro (h | ⟨-, h⟩)
            · rw [Kept, h]
              trivial
            · exact h
          · rw [handled_left hleft h, eq_comm, meant_blank_iff hd]
            exact ⟨.inl, fun h' => h'.resolve_right fun h'' => h h''.1⟩
        rw [runAll, if_neg (Nat.not_le.mpr hseg), meantAll]
        refine cons_eq_iff.trans ?_
        rw [hline, meant_error_iff hd, ih (left_behind _)]
        exact ⟨fun h => .inr ⟨hseg, h⟩, fun h => (h.resolve_left hnot).2⟩
      · -- too long with what was left only
        refine iff_of_false (fun heq => ?_) ?_
        · rw [runAll, if_pos hseg, meantAll] at heq
          rcases hmeant : meant n d with e | ev
          · rw [hmeant] at heq
            have he : e = ⟨n, "line too long"⟩ := by simpa using heq.symm
            have hnum := meant_error_line hd hmeant
            rw [he] at hnum
            exact absurd hnum (ne_of_lt n.lt_succ_self)
          · rw [hmeant] at heq
            cases congrArg Prod.fst heq
        · rintro (h | ⟨h, -⟩)
          · exact hnot h
          · omega
    · have hseg : PAGE ≤ (left ++ d).length := by
        rw [length_append]
        omega
      rw [runAll, if_pos hseg, meantAll, meant, if_pos hd]
      exact iff_of_true rfl (.inl hd)

lemma length_le_joined (ds : List (List UInt8)) : ds.length ≤ (joined newline ds []).length := by
  induction ds with
  | nil => exact le_refl 0
  | cons d ds ih =>
    rw [joined_cons, length_append, length_cons, length_cons]
    omega

/-- **A list is read as it is written**, for every list that ends in a newline, exactly if
no line of it is lost or changed. -/
theorem parseInput_iff (m : Mem) (buf : ℕ) (data : List UInt8) (hm : m.Holds buf data)
    (hend : data.getLast? = some newline) :
    parseInput m buf data.length = meantAll 0 (pieces newline data).1 ↔
      Clean [] (pieces newline data).1 := by
  have hjoin := joined_pieces newline data
  rw [pieces_of_getLast hend] at hjoin
  have hlen : (pieces newline data).1.length ≤ data.length := by
    rw [← hjoin, pieces_joined (not_mem_pieces newline data).1 not_mem_nil]
    exact length_le_joined _
  have hload : m.load buf (buf + data.length - buf) = [] ++ joined newline (pieces newline data).1
    [] := by
    rw [Nat.add_sub_cancel_left, Mem.holds_iff_load.mp hm, hjoin, nil_append]
  rw [parseInput, parseFrom_eq (l := ⟨m, buf, buf, buf, 0⟩) (Nat.lt_succ_of_le hlen) hload
    not_mem_nil (not_mem_pieces newline data).1]
  exact runAll_iff (.inl rfl) 0 _

/-- The list `#a`, `b`. -/
theorem parseInput_two :
    parseInput (Mem.store (fun _ => 0) 0 [0x23, 0x61, 0x0A, 0x62, 0x0A]) 0 5 =
      ([.comment, .file ⟨[0x62], 1, [0x62], 1⟩], none) := by
  have hcomment : Kept (joined newline [[0x62]] []) [0x23, 0x61] := by
    simp [Kept, trim, isSpace, rdropWhile]
  have hfile : Kept (joined newline [] []) [0x62] := by
    simp [Kept, trim, trail, isSpace, rdropWhile, rtakeWhile]
  have hclean : Clean [] [[0x23, 0x61], [0x62]] :=
    .inr ⟨by decide, .inr ⟨rfl, hcomment⟩, .inr (.inr ⟨by decide, .inr ⟨rfl, hfile⟩, .inr rfl⟩)⟩
  exact (parseInput_iff _ 0 [0x23, 0x61, 0x0A, 0x62, 0x0A] (Mem.holds_store _ 0 _) rfl).mpr hclean

/-- The list `a` with a blank behind it, then `b`. -/
theorem not_read :
    ¬ ∀ (m : Mem) (buf : ℕ) (data : List UInt8), m.Holds buf data → data.getLast? = some newline →
      parseInput m buf data.length = meantAll 0 (pieces newline data).1 := by
  intro h
  have h1 := h (Mem.store (fun _ => 0) 0 [0x61, 0x20, 0x0A, 0x62, 0x0A]) 0
    [0x61, 0x20, 0x0A, 0x62, 0x0A] (Mem.holds_store _ 0 _) rfl
  revert h1
  decide

end Minibase.Cpio
