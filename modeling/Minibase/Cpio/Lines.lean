import Minibase.Cpio.Pack

/-!
# Lines that are lost

What `parse_input` makes of a list, in terms of its lines. Cutting a line out of the buffer
moves its end back over its blanks, and the cursor with it. If there were blanks, the next
line starts in what is left of them (`Cpio.behind`), with the zero that was put over the
newline, and is taken for an empty one. The run over the buffer is a run over the lines that
carries what was left behind (`Cpio.parseFrom_eq`).
-/

namespace Minibase.Cpio

open List Mem

variable (d : List UInt8)

/-- The blanks at the end of a line. -/
def trail : List UInt8 := (d.dropWhile isSpace).rtakeWhile isSpace

/-- What the cursor is left before: the blanks but the first, and the zero. -/
def behind : List UInt8 := (trail d ++ [0]).tail

lemma trim_append_trail : trim d ++ trail d = d.dropWhile isSpace :=
  rdropWhile_append_rtakeWhile

/-! ### Cutting a line out -/

section Cut

variable {bend : ℕ} {l : Lst} {seg rest : List UInt8}

lemma takeWhile_no_newline (h : newline ∉ seg) (rest : List UInt8) :
    (seg ++ newline :: rest).takeWhile (! · == newline) = seg := by
  have hall : ∀ c ∈ seg, (! c == newline) = true := by
    intro c hc
    have hne : c ≠ newline := fun h0 => h (h0 ▸ hc)
    simpa using hne
  rw [takeWhile_append_of_pos hall]
  simp

lemma drop_takeWhile_length (p : UInt8 → Bool) (d : List UInt8) :
    d.drop (d.takeWhile p).length = d.dropWhile p := by
  obtain ⟨f, hf⟩ : ∃ f, d.takeWhile p = f := ⟨_, rfl⟩
  have hd : f ++ d.dropWhile p = d := hf ▸ takeWhile_append_dropWhile
  rw [hf]
  nth_rewrite 1 [← hd]
  exact drop_left

/-- **`grab_line`** on a buffer that starts with `seg` and a newline. -/
theorem grabLine_eq (hv : l.m.load l.lp (bend - l.lp) = seg ++ newline :: rest)
    (hseg : newline ∉ seg) :
    (PAGE ≤ seg.length ∧ grabLine bend l = .error ⟨l.line, "line too long"⟩) ∨
      seg.length < PAGE ∧ ∃ t : Lst, grabLine bend l = .ok (some t) ∧
        t.le = t.ls + (trim seg).length ∧ t.lp = t.le + 1 ∧ t.line = l.line + 1 ∧
        t.m.load t.ls (bend - t.ls) = trim seg ++ (trail seg ++ 0 :: rest) := by
  have hlen : bend - l.lp = seg.length + (1 + rest.length) := by
    rw [← length_load l.m l.lp (bend - l.lp), hv, length_append, length_cons, Nat.add_comm 1]
  have hq : strecbrk l.m l.lp bend newline = l.lp + seg.length := by
    rw [strecbrk, scan_eq, hv, takeWhile_no_newline hseg]
  rw [grabLine, if_neg (by omega), hq, if_neg (by omega)]
  rcases Nat.lt_or_ge seg.length PAGE with hshort | hlong
  · right
    obtain ⟨m, hm⟩ : ∃ m, l.m.store (l.lp + seg.length) [0] = m := ⟨_, rfl⟩
    have hcut : m.load l.lp (bend - l.lp) = seg ++ 0 :: rest := hm ▸ load_store_byte hv
    have hseg : m.load l.lp seg.length = seg := (load_eq_append hcut).1
    have hcount : l.lp + seg.length - l.lp = seg.length := Nat.add_sub_cancel_left _ _
    have hs : skipSpace m l.lp (l.lp + seg.length) = l.lp + (seg.takeWhile isSpace).length := by
      rw [skipSpace, scan_eq, hcount, hseg]
      simp only [Bool.not_not]
    have hle : (seg.takeWhile isSpace).length ≤ seg.length :=
      (takeWhile_sublist isSpace).length_le
    have hcore : m.load (l.lp + (seg.takeWhile isSpace).length)
        (l.lp + seg.length - (l.lp + (seg.takeWhile isSpace).length)) = seg.dropWhile isSpace := by
      rw [Nat.add_sub_add_left, ← drop_load, hseg, drop_takeWhile_length]
    refine ⟨hshort, _, if_neg (by omega), ?_, rfl, rfl, ?_⟩
    · rw [hm, hs, backSpace, scanBack_eq, hcore]
      rfl
    · rw [hm, hs]
      show m.load (l.lp + (seg.takeWhile isSpace).length)
        (bend - (l.lp + (seg.takeWhile isSpace).length)) = _
      rw [← Nat.sub_sub, ← drop_load, hcut, drop_append_of_le_length hle,
        drop_takeWhile_length, ← trim_append_trail, append_assoc]
  · left
    exact ⟨hlong, if_pos (by omega)⟩

end Cut

/-! ### Taking it apart -/

/-- `take_name_path` on the text behind the lead, with the blanks after it and what is in
the buffer after the line. -/
def taken (t trail rest : List UInt8) : Entry :=
  let name := string (t.takeWhile (! isSpace ·))
  let path :=
    -- without a second word it is what comes behind the zero
    if t.dropWhile (! isSpace ·) = [] then string ((trail ++ 0 :: rest).tail)
    else string ((t.dropWhile (! isSpace ·)).dropWhile isSpace ++ trail)
  ⟨name, name.length, path, path.length⟩

/-- `parse_path` on the text behind the lead, in the line with the number `n`. -/
def pathOf (n : ℕ) (t : List UInt8) : Except Syntax Event :=
  match t.dropWhile isSpace with
  | [] => .error ⟨n, "empty path"⟩
  | c :: p => if c = slash then .error ⟨n, "leading slash"⟩ else .ok (.pref (c :: p ++ [slash]))

/-- `take_whole_line`. -/
def whole (text trail : List UInt8) : Entry :=
  let path := string (text ++ trail)
  ⟨basename path, (basename path).length, path, text.length⟩

/-- The body of the loop of `parse_input` on a line that was cut out. -/
def handled (n : ℕ) (text trail rest : List UInt8) : Except Syntax Event :=
  match text with
  | [] => .ok .blank
  | lead :: t =>
    if lead = 0 then .ok .blank
    else if lead = 0x23 then .ok .comment
    else if lead = 0x3E then pathOf n t
    else if lead = 0x40 then .ok (.link (taken t trail rest))
    else if lead = 0x3D then .ok (.copy (taken t trail rest))
    else .ok (.file (whole text trail))

section Parse

variable {bend : ℕ} {l : Lst} {text trail rest : List UInt8}

/-- The bytes behind the end of the text. -/
theorem load_behind (hv : l.m.load l.ls (bend - l.ls) = text ++ (trail ++ 0 :: rest)) :
    l.m.load (l.ls + text.length + 1) (bend - (l.ls + text.length + 1)) =
      (trail ++ 0 :: rest).tail := by
  have hg := (load_eq_append hv).2
  rw [Nat.sub_sub] at hg
  rw [← drop_one, ← hg, drop_load, Nat.sub_sub]

lemma takeWholeLine_eq (hv : l.m.load l.ls (bend - l.ls) = text ++ (trail ++ 0 :: rest))
    (hle : l.le = l.ls + text.length) : takeWholeLine bend l = whole text trail := by
  have hpath : stringAt l.m l.ls bend = string (text ++ trail) := by
    rw [stringAt, hv, ← append_assoc, string_append_zero]
  have hlen : l.le - l.ls = text.length := by omega
  rw [takeWholeLine, hpath, hlen]
  rfl

variable {t : List UInt8}

lemma takeWhile_of_dropWhile_nil {p : UInt8 → Bool} (h : t.dropWhile p = []) :
    t.takeWhile p = t := by
  have := takeWhile_append_dropWhile (p := p) (l := t)
  rwa [h, append_nil] at this

variable {c : UInt8}

/-- The text behind the lead. -/
theorem load_text (hv : l.m.load l.ls (bend - l.ls) = c :: t ++ (trail ++ 0 :: rest)) :
    l.m.load (l.ls + 1) (bend - (l.ls + 1)) = t ++ (trail ++ 0 :: rest) := by
  have h0 := drop_load l.m l.ls (bend - l.ls) 1
  rw [hv, Nat.sub_sub] at h0
  exact h0.symm

lemma skipNonspace_eq (hv : l.m.load l.ls (bend - l.ls) = c :: t ++ (trail ++ 0 :: rest))
    (hle : l.le = l.ls + (c :: t).length) :
    skipNonspace l.m (l.ls + 1) l.le = l.ls + 1 + (t.takeWhile (! isSpace ·)).length := by
  have hcount : l.le - (l.ls + 1) = t.length := by
    rw [hle, length_cons]
    omega
  rw [skipNonspace, scan_eq, hcount, (load_eq_append (load_text hv)).1]

/-- `take_name_path` on a line of one word: the end of the line is overwritten. -/
theorem takeNamePath_one (hv : l.m.load l.ls (bend - l.ls) = c :: t ++ (trail ++ 0 :: rest))
    (hle : l.le = l.ls + (c :: t).length) (hd : t.dropWhile (! isSpace ·) = []) :
    (takeNamePath bend l).1 = taken t trail rest := by
  have hp := load_text hv
  have hq := skipNonspace_eq hv hle
  have htake : t.takeWhile (! isSpace ·) = t := takeWhile_of_dropWhile_nil hd
  obtain ⟨m, hm⟩ : ∃ m, l.m.store (l.ls + 1 + t.length) [0] = m := ⟨_, rfl⟩
  obtain ⟨x, y, hxy⟩ : ∃ x y, trail ++ 0 :: rest = x :: y := by
    cases trail
    · exact ⟨_, _, rfl⟩
    · exact ⟨_, _, rfl⟩
  rw [hxy] at hp
  have hname : m.load (l.ls + 1) (bend - (l.ls + 1)) = t ++ 0 :: y := hm ▸ load_store_byte hp
  have hle' : l.ls + 1 + t.length = l.ls + (c :: t).length := by
    rw [length_cons]
    omega
  have hskip : skipSpace m (l.ls + 1 + t.length + 1) l.le = l.ls + 1 + t.length + 1 := by
    have hnone : l.le - (l.ls + 1 + t.length + 1) = 0 := by omega
    rw [skipSpace, hnone]
    rfl
  have hpath : m.load (l.ls + 1 + t.length + 1) (bend - (l.ls + 1 + t.length + 1)) =
      (trail ++ 0 :: rest).tail := by
    rw [← hm, load_store_before (by simp), hle']
    exact load_behind hv
  rw [takeNamePath, taken, hq, htake, if_pos hd]
  rw [hm, stringAt, hname, string_append_zero, hskip, stringAt, hpath]

/-- `take_name_path` on a line of more: the blank behind the first word is. -/
theorem takeNamePath_two {b : UInt8} {g : List UInt8}
    (hv : l.m.load l.ls (bend - l.ls) = c :: t ++ (trail ++ 0 :: rest))
    (hle : l.le = l.ls + (c :: t).length) (hd : t.dropWhile (! isSpace ·) = b :: g) :
    (takeNamePath bend l).1 = taken t trail rest := by
  have hp := load_text hv
  have hq := skipNonspace_eq hv hle
  obtain ⟨f, hf⟩ : ∃ f, t.takeWhile (! isSpace ·) = f := ⟨_, rfl⟩
  rw [hf] at hq
  obtain ⟨m, hm⟩ : ∃ m, l.m.store (l.ls + 1 + f.length) [0] = m := ⟨_, rfl⟩
  have hb : isSpace b = true := by
    have h0 := head?_dropWhile_not (! isSpace ·) t
    rw [hd] at h0
    simpa using h0
  have hsplit : f ++ b :: g = t := by
    rw [← hf, ← hd]
    exact takeWhile_append_dropWhile
  rw [← hsplit, append_assoc, cons_append] at hp
  have hname : m.load (l.ls + 1) (bend - (l.ls + 1)) = f ++ 0 :: (g ++ (trail ++ 0 :: rest)) :=
    hm ▸ load_store_byte hp
  have hafter : m.load (l.ls + 1 + f.length + 1) (bend - (l.ls + 1 + f.length + 1)) =
      g ++ (trail ++ 0 :: rest) := by
    have h0 := drop_load m (l.ls + 1) (bend - (l.ls + 1)) (f.length + 1)
    rw [hname, Nat.sub_sub, ← Nat.add_assoc] at h0
    rw [← h0, ← drop_drop, drop_left, drop_one, tail_cons]
  have hcount : l.le - (l.ls + 1 + f.length + 1) = g.length := by
    rw [hle, length_cons, ← hsplit, length_append, length_cons]
    omega
  have hskip : skipSpace m (l.ls + 1 + f.length + 1) l.le =
      l.ls + 1 + f.length + 1 + (g.takeWhile isSpace).length := by
    rw [skipSpace, scan_eq, hcount, (load_eq_append hafter).1]
    simp only [Bool.not_not]
  have hgle : (g.takeWhile isSpace).length ≤ g.length := (takeWhile_sublist _).length_le
  have hpath : m.load (l.ls + 1 + f.length + 1 + (g.takeWhile isSpace).length)
      (bend - (l.ls + 1 + f.length + 1 + (g.takeWhile isSpace).length)) =
        g.dropWhile isSpace ++ trail ++ 0 :: rest := by
    rw [← Nat.sub_sub, ← drop_load, hafter, drop_append_of_le_length hgle,
      drop_takeWhile_length, append_assoc]
  have hdrop : (b :: g).dropWhile isSpace = g.dropWhile isSpace := by
    rw [dropWhile_cons, if_pos hb]
  rw [takeNamePath, taken, hq, hf, hd, if_neg (cons_ne_nil b g), hdrop]
  rw [hm, stringAt, hname, string_append_zero, hskip, stringAt, hpath, string_append_zero]

/-- **`take_name_path`**, and that the buffer behind the line is as it was. -/
theorem takeNamePath_eq (hv : l.m.load l.ls (bend - l.ls) = c :: t ++ (trail ++ 0 :: rest))
    (hle : l.le = l.ls + (c :: t).length) :
    (takeNamePath bend l).1 = taken t trail rest ∧
      ∀ n, (takeNamePath bend l).2.m.load (l.le + 1) n = l.m.load (l.le + 1) n := by
  refine ⟨?_, fun n => ?_⟩
  · rcases hd : t.dropWhile (! isSpace ·) with - | ⟨b, g⟩
    · exact takeNamePath_one hv hle hd
    · exact takeNamePath_two hv hle hd
  · have hfle : (t.takeWhile (! isSpace ·)).length ≤ t.length := (takeWhile_sublist _).length_le
    show (l.m.store (skipNonspace l.m (l.ls + 1) l.le) [0]).load (l.le + 1) n = _
    rw [skipNonspace_eq hv hle]
    refine load_store_before ?_
    simp only [hle, length_cons, length_nil]
    omega

lemma parsePath_eq (hv : l.m.load l.ls (bend - l.ls) = c :: t ++ (trail ++ 0 :: rest))
    (hle : l.le = l.ls + (c :: t).length) : parsePath l = pathOf l.line t := by
  have ht : l.m.load (l.ls + 1) t.length = t := (load_eq_append (load_text hv)).1
  have hcount : l.le - (l.ls + 1) = t.length := by
    rw [hle, length_cons]
    omega
  have hskip : skipSpace l.m (l.ls + 1) l.le = l.ls + 1 + (t.takeWhile isSpace).length := by
    rw [skipSpace, scan_eq, hcount, ht]
    simp only [Bool.not_not]
  have hsum : (t.takeWhile isSpace).length + (t.dropWhile isSpace).length = t.length := by
    rw [← length_append, takeWhile_append_dropWhile]
  have hrest : l.m.load (l.ls + 1 + (t.takeWhile isSpace).length) (t.dropWhile isSpace).length =
      t.dropWhile isSpace := by
    have h0 := drop_load l.m (l.ls + 1) t.length (t.takeWhile isSpace).length
    rw [ht, drop_takeWhile_length] at h0
    have hn : (t.dropWhile isSpace).length = t.length - (t.takeWhile isSpace).length := by omega
    rw [hn]
    exact h0.symm
  have hleft : l.le - (l.ls + 1 + (t.takeWhile isSpace).length) = (t.dropWhile isSpace).length := by
    omega
  rw [parsePath, hskip, pathOf]
  rcases hd : t.dropWhile isSpace with - | ⟨x, p⟩
  · rw [hd] at hleft
    exact if_pos (Nat.le_of_sub_eq_zero hleft)
  · have hx : l.m (l.ls + 1 + (t.takeWhile isSpace).length) = x := by
      rw [hd, length_cons, load_succ] at hrest
      exact (cons.inj hrest).1
    have hlt : ¬ l.ls + 1 + (t.takeWhile isSpace).length ≥ l.le := by
      rw [hd, length_cons] at hleft
      omega
    rw [if_neg hlt, hx, hleft, hrest, hd]

/-- **`parse_line`**: what is done about the line, and that the buffer behind it is as it
was. -/
theorem parseLine_eq (hv : l.m.load l.ls (bend - l.ls) = text ++ (trail ++ 0 :: rest))
    (hle : l.le = l.ls + text.length) (hempty : text = [] → trail = []) :
    ∃ t : Lst, parseLine bend l = (handled l.line text trail rest).map (fun ev => (ev, t)) ∧
      t.lp = l.lp ∧ t.line = l.line ∧ ∀ n, t.m.load (l.le + 1) n = l.m.load (l.le + 1) n := by
  rcases text with - | ⟨lead, t⟩
  · -- the zero that was put over the newline
    have hzero : l.m l.ls = 0 := by
      rw [hempty rfl] at hv
      have hlen : bend - l.ls = rest.length + 1 := by
        rw [← length_load l.m l.ls (bend - l.ls), hv]
        rfl
      rw [hlen, load_succ] at hv
      exact (cons.inj hv).1
    exact ⟨l, if_pos hzero, rfl, rfl, fun _ => rfl⟩
  have hlead : l.m l.ls = lead := by
    have hlen : bend - l.ls = (t ++ (trail ++ 0 :: rest)).length + 1 := by
      rw [← length_load l.m l.ls (bend - l.ls), hv]
      rfl
    rw [hlen, load_succ] at hv
    exact (cons.inj hv).1
  obtain ⟨hentry, hafter⟩ := takeNamePath_eq hv hle
  rw [parseLine, hlead, handled]
  split_ifs
  · exact ⟨l, rfl, rfl, rfl, fun _ => rfl⟩
  · exact ⟨l, rfl, rfl, rfl, fun _ => rfl⟩
  · exact ⟨l, by rw [parsePath_eq hv hle], rfl, rfl, fun _ => rfl⟩
  · refine ⟨(takeNamePath bend l).2, ?_, rfl, rfl, hafter⟩
    rw [← hentry]
    rfl
  · refine ⟨(takeNamePath bend l).2, ?_, rfl, rfl, hafter⟩
    rw [← hentry]
    rfl
  · refine ⟨l, ?_, rfl, rfl, fun _ => rfl⟩
    rw [takeWholeLine_eq hv hle]
    rfl

end Parse

/-! ### The run over the lines -/

/-- `parse_input`, line by line: `left` is what the cursor was left before. -/
def runAll : List UInt8 → ℕ → List (List UInt8) → List Event × Option Syntax
  | left, n, [] => ([], if left = [] then none else some ⟨n, "truncated file"⟩)
  | left, n, d :: ds =>
    if PAGE ≤ (left ++ d).length then ([], some ⟨n, "line too long"⟩)
    else
      match handled (n + 1) (trim (left ++ d)) (trail (left ++ d)) (joined newline ds []) with
      | .error e => ([], some e)
      | .ok ev =>
        let r := runAll (behind (left ++ d)) (n + 1) ds
        (ev :: r.1, r.2)

/-- If there is no text there are no blanks behind it. -/
theorem trail_of_trim {d : List UInt8} (h : trim d = []) : trail d = [] := by
  rw [trim, rdropWhile_eq_nil_iff] at h
  have hnil : d.dropWhile isSpace = [] := by
    rcases hd : d.dropWhile isSpace with - | ⟨c, t⟩
    · rfl
    · have hc := head?_dropWhile_not isSpace d
      rw [hd] at hc h
      have := h c mem_cons_self
      simp only [head?_cons] at hc
      rw [hc] at this
      cases this
  rw [trail, hnil]
  rfl

lemma not_mem_behind {d : List UInt8} (h : newline ∉ d) : newline ∉ behind d := by
  intro hmem
  rcases mem_append.mp (mem_of_mem_tail hmem) with h1 | h1
  · have h2 := trim_append_trail d ▸ mem_append_right (trim d) h1
    exact h (dropWhile_sublist isSpace |>.subset h2)
  · exact absurd (mem_singleton.mp h1) (by decide)

lemma joined_cons (ds : List (List UInt8)) :
    joined newline (d :: ds) [] = d ++ newline :: joined newline ds [] := by
  simp [joined]

/-- **The run over the buffer** is the run over the lines. -/
theorem parseFrom_eq {bend : ℕ} {ds : List (List UInt8)} {left : List UInt8} {l : Lst} {k : ℕ}
    (hk : ds.length < k) (hv : l.m.load l.lp (bend - l.lp) = left ++ joined newline ds [])
    (hleft : newline ∉ left) (hds : ∀ d ∈ ds, newline ∉ d) :
    parseFrom bend k l = runAll left l.line ds := by
  induction ds generalizing left l k with
  | nil =>
    obtain ⟨k, rfl⟩ : ∃ j, k = j + 1 := ⟨k - 1, by simp at hk; omega⟩
    have hlen : bend - l.lp = left.length := by
      rw [← length_load l.m l.lp (bend - l.lp), hv]
      simp [joined]
    rw [parseFrom, runAll]
    by_cases h : left = []
    · have hend : grabLine bend l = .ok none := if_pos (by
        rw [h] at hlen
        exact Nat.le_of_sub_eq_zero hlen)
      rw [hend, if_pos h]
    · have hpos : 0 < left.length := length_pos_iff.mpr h
      have hq : strecbrk l.m l.lp bend newline = l.lp + left.length := by
        have hall : ∀ c ∈ left, (! c == newline) = true := by
          intro c hc
          have hne : c ≠ newline := fun h0 => hleft (h0 ▸ hc)
          simpa using hne
        have hjoin : joined newline [] [] = [] := rfl
        rw [strecbrk, scan_eq, hv, hjoin, append_nil, takeWhile_eq_self_iff.mpr hall]
      have hend : grabLine bend l = .error ⟨l.line, "truncated file"⟩ := by
        rw [grabLine, if_neg (by omega), hq, if_pos (by omega)]
      rw [hend, if_neg h]
  | cons d ds ih =>
    obtain ⟨k, rfl⟩ : ∃ j, k = j + 1 := ⟨k - 1, by omega⟩
    have hd : newline ∉ left ++ d := by
      rw [mem_append, not_or]
      exact ⟨hleft, hds d mem_cons_self⟩
    rw [joined_cons, ← append_assoc] at hv
    rw [parseFrom, runAll]
    rcases grabLine_eq hv hd with ⟨hlong, hgrab⟩ | ⟨hshort, t, hgrab, hle, hlp, hline, hview⟩
    · rw [hgrab, if_pos hlong]
    · rw [hgrab, if_neg (Nat.not_le.mpr hshort), ← hline]
      obtain ⟨u, hparse, hulp, huline, hafter⟩ := parseLine_eq hview hle trail_of_trim
      dsimp only
      rw [hparse]
      rcases handled t.line (trim (left ++ d)) (trail (left ++ d))
        (joined newline ds []) with e | ev
      · rfl
      · have hnext : u.m.load u.lp (bend - u.lp) = behind (left ++ d) ++ joined newline ds [] := by
          rw [hulp, hlp, hafter, hle, load_behind hview, behind]
          cases trail (left ++ d)
          · rfl
          · simp
        have hrest := ih (Nat.lt_of_succ_lt_succ hk) hnext (not_mem_behind hd)
          fun d' hd' => hds d' (mem_cons_of_mem _ hd')
        show (ev :: (parseFrom bend k u).1, (parseFrom bend k u).2) = _
        rw [hrest, huline]

end Minibase.Cpio
