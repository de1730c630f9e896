import Minibase.Syslog.Log

/-!
# Following the log

`logcat -f`: the end of the log is read into a buffer, and then what is appended to it, in pieces of
any lengths. What is in the buffer between two reads is the beginning of a line (`Syslog.feed`).
Where to begin is found by going back by the length of the buffer and leaving out everything up to
the end of a line, and that is **a whole line if a line begins there**, at the beginning of a short
log above all (`Syslog.follows_iff`).
-/

namespace Minibase.Syslog

open List

/-! ### The code -/

/-- `buflen`. -/
def BUFLEN : ℕ := 2 * 4096

/-- The log that is open, how far it has been read, what is in `ctx->buf`, and the lines `process`
has been called for. -/
structure Tail where
  file : List UInt8
  off : ℕ
  buf : List UInt8
  shown : List (List UInt8)

/-- `find_line_end`: the line, and what follows it. -/
def findLineEnd (buf : List UInt8) : Option (List UInt8 × List UInt8) :=
  match buf.dropWhile (· ≠ 10) with
  | [] => none
  | _ :: rest => some (buf.takeWhile (· ≠ 10), rest)

/-- The tests of `process_chunk`. -/
def isShown (tag : Option (List UInt8)) (line : List UInt8) : Bool :=
  if line.length < TAGSPACE then false else tagged tag (Mem.store (fun _ => 0) 0 line) 0 line.length

/-- The loop of `process_chunk`. Each turn takes a byte at least. -/
def chunkLoop (tag : Option (List UInt8)) : (fuel : ℕ) → (ls : List UInt8) → List (List UInt8) →
    List (List UInt8) × List UInt8
  | 0, ls, shown => (shown, ls)
  | fuel + 1, ls, shown =>
    match findLineEnd ls with
    | none => (shown, ls)
    | some (line, rest) => chunkLoop tag fuel
      rest (if isShown tag line then shown ++ [line] else shown)

def processChunk (tag : Option (List UInt8)) (t : Tail) : Tail :=
  let out := chunkLoop tag t.buf.length t.buf t.shown
  { t with shown := out.1, buf := out.2 }

/-- What a read yields if it is to be cut off at `cut`: a byte at least, if there is one and there
is room. -/
def readLen (cut : ℕ) (t : Tail) : ℕ :=
  min (max 1 cut) (min (BUFLEN - t.buf.length) (t.file.length - t.off))

/-- `read_chunk`, of `rd` bytes. -/
def readChunk (rd : ℕ) (t : Tail) : Tail :=
  { t with buf := t.buf ++ (t.file.drop t.off).take rd, off := t.off + rd }

/-- `slurp_tail`, with reads that are cut off anywhere. Each one takes a byte at least. -/
def slurpTail (tag : Option (List UInt8)) (cut : ℕ → ℕ) : ℕ → Tail → Tail
  | 0, t => t
  | fuel + 1, t =>
    let rd := readLen (cut fuel) t
    if rd = 0 then t else slurpTail tag cut fuel (processChunk tag (readChunk rd t))

/-- `seek_to_start_of_line`, or nothing if it fails. -/
def seekToStartOfLine (cut : ℕ) (t : Tail) : Option Tail :=
  let size := t.file.length
  if size = 0 then some t
  else
    let t := { t with off := if BUFLEN > size then 0 else size - BUFLEN }
    let t := readChunk (readLen cut t) t
    match findLineEnd t.buf with
    | none => none
    | some (_, rest) => some { t with buf := rest }

/-- What happens before and while the loop of `follow_log` is gone through once: what is appended,
the log that has taken the place of this one, if there is one, and where the reads are cut off. -/
structure Round where
  appended : List UInt8
  newfile : Option (List UInt8)
  cut : ℕ → ℕ
  cut' : ℕ → ℕ

/-- The loop of `follow_log`. -/
def round (tag : Option (List UInt8)) (t : Tail) (r : Round) : Tail :=
  let t := { t with file := t.file ++ r.appended }
  let t := slurpTail tag r.cut t.file.length t
  match r.newfile with
  | none => t
  | some f => slurpTail tag r.cut' f.length { t with buf := [], file := f, off := 0 }

/-- `follow_log`, with the option `-a` or without. -/
def followLog (tag : Option (List UInt8)) (a : Bool) (file : List UInt8) (cut : ℕ → ℕ)
    (rounds : List Round) : Option Tail :=
  let t : Tail := ⟨file, 0, [], []⟩
  let start := if a then some (slurpTail tag cut file.length t) else
    (seekToStartOfLine (cut 0) t).map (processChunk tag)
  start.map fun t => rounds.foldl (round tag) t

/-! ### What is meant -/

/-- **The lines of a text** that goes on from the beginning of one, and what is the beginning of one
then. -/
def feed : List UInt8 → List UInt8 → List (List UInt8) × List UInt8
  | part, [] => ([], part)
  | part, c :: l => if c = 10 then (part :: (feed [] l).1, (feed [] l).2) else feed (part ++ [c]) l

/-- Lines with their ends. -/
def ended (ls : List (List UInt8)) : List UInt8 := ls.flatMap (· ++ [10])

/-- The lines that lie wholly within the last bytes, as many as there is room for in the buffer. -/
def lastLines : List (List UInt8) → List (List UInt8)
  | [] => []
  | l :: ls => if (ended (l :: ls)).length ≤ BUFLEN then l :: ls else lastLines ls

/-- **The lines of the log**, and of the logs that take its place. -/
def told : List UInt8 → List Round → List (List UInt8)
  | cur, [] => (feed [] cur).1
  | cur, r :: rs =>
    match r.newfile with
    | none => told (cur ++ r.appended) rs
    | some f => (feed [] (cur ++ r.appended)).1 ++ told f rs

/-- What is to be shown of a log with these lines. -/
def expected (a : Bool) (ls : List (List UInt8)) (rounds : List Round) : List (List UInt8) :=
  told (ended (if a then ls else lastLines ls)) rounds

/-- All lines are shorter than the buffer. -/
def Short (part u : List UInt8) : Prop :=
  (∀ l ∈ (feed part u).1, l.length < BUFLEN) ∧ (feed part u).2.length < BUFLEN

/-- So are those of all the logs. -/
def AllShort : List UInt8 → List Round → Prop
  | cur, [] => Short [] cur
  | cur, r :: rs =>
    match r.newfile with
    | none => AllShort (cur ++ r.appended) rs
    | some f => Short [] (cur ++ r.appended) ∧ AllShort f rs

/-- **The log is followed**: each line is processed once, in order, and nothing else is. -/
def Follows (tag : Option (List UInt8)) (a : Bool) (ls : List (List UInt8)) (cut : ℕ → ℕ)
    (rounds : List Round) : Prop :=
  ∃ t, followLog tag a (ended ls) cut rounds = some t ∧ t.shown = expected a ls rounds

/-- What the first read is from. -/
def window (ls : List (List UInt8)) : List UInt8 := (ended ls).drop ((ended ls).length - BUFLEN)

/-- **No line is left out at the beginning**: the log is longer than the buffer, and no line begins
where it goes back to. The first read has to reach the end of the one that is cut off there, and
everything if there is no other. -/
structure Begins (ls : List (List UInt8)) (cut : ℕ) (rounds : List Round) : Prop where
  long : BUFLEN < (ended ls).length
  within : (ended (lastLines ls)).length ≠ BUFLEN
  ends : 10 ∈ (window ls).take (max 1 cut)
  all : rounds = [] → (window ls).length ≤ max 1 cut

/-! ### Lines -/

section Lines

variable {a b part u : List UInt8}

lemma feed_append (part a b : List UInt8) :
    feed part (a ++ b) = ((feed part a).1 ++ (feed (feed part a).2 b).1,
      (feed (feed part a).2 b).2) := by
  induction a generalizing part with
  | nil => rfl
  | cons c a ih =>
    rw [cons_append, feed, feed]
    split
    case isTrue => rw [ih, cons_append]
    case isFalse => exact ih _

lemma feed_of_not_mem (h : 10 ∉ a) (part : List UInt8) : feed part a = ([], part ++ a) := by
  induction a generalizing part with
  | nil => rw [feed, append_nil]
  | cons c a ih =>
    rw [mem_cons, not_or] at h
    obtain ⟨hc, ha⟩ := h
    rw [feed, if_neg (Ne.symm hc), ih ha, append_assoc]
    rfl

/-- A line that has begun is gone on with. -/
theorem feed_part (h : 10 ∉ part) (u : List UInt8) : feed [] (part ++ u) = feed part u := by
  rw [feed_append, feed_of_not_mem h]
  rfl

lemma not_mem_feed (h : 10 ∉ part) (u : List UInt8) : 10 ∉ (feed part u).2 := by
  induction u generalizing part with
  | nil => exact h
  | cons c u ih =>
    rw [feed]
    split
    case isTrue => exact ih not_mem_nil
    case isFalse hc => exact ih fun hmem =>
      (mem_append.mp hmem).elim h fun h10 => hc (mem_singleton.mp h10).symm

lemma feed_line (h : 10 ∉ a) (u : List UInt8) : feed []
    (a ++ 10 :: u) = (a :: (feed [] u).1, (feed [] u).2) := by
  rw [feed_part h, feed, if_pos rfl]

lemma feed_ended {ls : List (List UInt8)} (h : ∀ l ∈ ls, 10 ∉ l) : feed []
    (ended ls) = (ls, []) := by
  induction ls with
  | nil => rfl
  | cons l ls ih =>
    have hcons : ended (l :: ls) = l ++ 10 :: ended ls := by
      rw [ended, flatMap_cons, append_assoc]
      rfl
    rw [hcons, feed_line (h l mem_cons_self), ih fun l' hl' => h l' (mem_cons_of_mem l hl')]

/-- A line is as long as what has begun of it. -/
theorem length_part (part u : List UInt8) : (∃ l ∈ (feed part u).1, part.length ≤ l.length) ∨
    part.length ≤ (feed part u).2.length := by
  induction u generalizing part with
  | nil => exact .inr le_rfl
  | cons c u ih =>
    rw [feed]
    split
    case isTrue => exact .inl ⟨part, mem_cons_self, le_rfl⟩
    case isFalse =>
      have hlen : part.length ≤ (part ++ [c]).length := by
        rw [length_append]
        exact Nat.le_add_right _ _
      exact (ih (part ++ [c])).imp (fun ⟨l, hl, hle⟩ => ⟨l, hl, hlen.trans hle⟩) hlen.trans

/-- There is room in the buffer. -/
theorem Short.room (h : Short part u) : part.length < BUFLEN := by
  rcases length_part part u with ⟨l, hl, hle⟩ | hle
  · exact lt_of_le_of_lt hle (h.1 l hl)
  · exact lt_of_le_of_lt hle h.2

lemma Short.rest (h : Short part (a ++ u)) : Short (feed part a).2 u := by
  rw [Short, feed_append] at h
  exact ⟨fun l hl => h.1 l (mem_append_right _ hl), h.2⟩

/-- **What has been told already.** -/
theorem told_append (a b : List UInt8) (rs : List Round) :
    told (a ++ b) rs = (feed [] a).1 ++ told ((feed [] a).2 ++ b) rs := by
  have hfeed (u : List UInt8) : (feed [] (a ++ u)).1 =
    (feed [] a).1 ++ (feed [] ((feed [] a).2 ++ u)).1 := by
    rw [feed_append, feed_part (not_mem_feed not_mem_nil a)]
  induction rs generalizing b with
  | nil => exact hfeed b
  | cons r rs ih =>
    rw [told, told]
    cases r.newfile with
    | none =>
      rw [append_assoc, ih, append_assoc]
    | some f =>
      dsimp only
      rw [append_assoc, hfeed, append_assoc, append_assoc]

end Lines

/-! ### Reading -/

section Reading

variable {tag : Option (List UInt8)} {t : Tail}

/-- The part of the log that has not been read. -/
def Tail.unread (t : Tail) : List UInt8 := t.file.drop t.off

lemma findLineEnd_line {line : List UInt8} (h : 10 ∉ line) (rest : List UInt8) :
    findLineEnd (line ++ 10 :: rest) = some (line, rest) := by
  have hpos : ∀ c ∈ line, decide (c ≠ 10) = true :=
    fun c hc => decide_eq_true fun h10 => h (h10 ▸ hc)
  rw [findLineEnd, dropWhile_append_of_pos hpos, takeWhile_append_of_pos hpos]
  exact congrArg (fun l => some (l, rest)) (append_nil line)

lemma findLineEnd_eq (buf : List UInt8) :
    (10 ∉ buf ∧ findLineEnd buf = none) ∨
    ∃ line rest, 10 ∉ line ∧ buf = line ++ 10 :: rest ∧ findLineEnd buf = some (line, rest) := by
  by_cases h : 10 ∈ buf
  · obtain ⟨line, rest, rfl, hline⟩ := eq_append_cons_of_mem h
    exact .inr ⟨line, rest, hline, rfl, findLineEnd_line hline rest⟩
  · refine .inl ⟨h, ?_⟩
    have hnil : buf.dropWhile (· ≠ 10) = [] :=
      dropWhile_eq_nil_iff.mpr fun c hc => decide_eq_true fun h10 => h (h10 ▸ hc)
    rw [findLineEnd, hnil]

lemma chunkLoop_eq (fuel : ℕ) {buf : List UInt8}
    (h : buf.length ≤ fuel) (shown : List (List UInt8)) :
    chunkLoop tag fuel buf shown = (shown ++ (feed [] buf).1.filter
      (isShown tag), (feed [] buf).2) := by
  induction fuel generalizing buf shown with
  | zero =>
    obtain rfl := length_eq_zero_iff.mp (Nat.le_zero.mp h)
    rw [chunkLoop, feed, filter_nil, append_nil]
  | succ fuel ih =>
    rw [chunkLoop]
    rcases findLineEnd_eq buf with ⟨hno, hend⟩ | ⟨line, rest, hline, rfl, hend⟩
    · rw [hend, feed_of_not_mem hno, filter_nil, append_nil]
      rfl
    · rw [length_append, length_cons] at h
      rw [hend, feed_line hline, filter_cons]
      dsimp only
      rw [ih (by omega)]
      split <;> simp only [append_assoc, singleton_append]

lemma processChunk_eq (tag : Option (List UInt8)) (t : Tail) : processChunk tag t =
    { t with
      shown := t.shown ++ (feed [] t.buf).1.filter (isShown tag), buf := (feed [] t.buf).2 } := by
  rw [processChunk, chunkLoop_eq _ le_rfl]

/-- **The rest of the log is read**, and its lines are processed. -/
theorem slurpTail_eq (cut : ℕ → ℕ) (fuel : ℕ) (hoff : t.off ≤ t.file.length) (hbuf : 10 ∉ t.buf)
    (hshort : Short t.buf t.unread) (hfuel : t.file.length - t.off ≤ fuel) :
    slurpTail tag cut fuel t =
      ⟨t.file, t.file.length, (feed t.buf t.unread).2, t.shown ++ (feed t.buf t.unread).1.filter
        (isShown tag)⟩ := by
  have hdone {t : Tail} (h : t.off = t.file.length) :
      t = ⟨t.file, t.file.length, (feed t.buf t.unread).2, t.shown ++ (feed t.buf t.unread).1.filter
        (isShown tag)⟩ := by
    rw [Tail.unread, drop_eq_nil_of_le h.ge, feed, filter_nil, append_nil, ← h]
  induction fuel generalizing t with
  | zero => exact hdone (t := t) (by omega)
  | succ fuel ih =>
    have hroom := hshort.room
    rw [slurpTail]
    split
    case isTrue hzero =>
      rw [readLen] at hzero
      exact hdone (by omega)
    case isFalse hpos =>
      have hle : readLen (cut fuel) t ≤ t.file.length - t.off := (Nat.min_le_right _ _).trans
        (Nat.min_le_right _ _)
      generalize readLen (cut fuel) t = rd at hpos hle ⊢
      -- what is read first, and what is left
      have hsplit : t.unread.take rd ++ t.unread.drop rd = t.unread := take_append_drop _ _
      have hnew : processChunk tag (readChunk rd t) = ⟨t.file, t.off + rd,
        (feed t.buf (t.unread.take rd)).2,
          t.shown ++ (feed t.buf (t.unread.take rd)).1.filter (isShown tag)⟩ := by
        rw [processChunk_eq, ← feed_part hbuf]
        rfl
      have hleft : (processChunk tag (readChunk rd t)).unread = t.unread.drop rd := by
        rw [hnew]
        exact drop_drop.symm
      have happ := feed_append t.buf (t.unread.take rd) (t.unread.drop rd)
      rw [hsplit] at happ
      rw [← hsplit] at hshort
      have hrest := ih (t := processChunk tag (readChunk rd t)) (by rw [hnew]; dsimp only; omega)
        (by rw [hnew]; exact not_mem_feed hbuf _) (by rw [hleft, hnew]; exact hshort.rest)
        (by rw [hnew]; dsimp only; omega)
      rw [hrest, hleft, hnew, happ, filter_append, ← append_assoc]

variable {rs : List Round}

/-- What there is of a log at first is short if all of it is in the end. -/
theorem AllShort.first {cur : List UInt8} (h : AllShort cur rs) : Short [] cur := by
  have hfirst {x y : List UInt8} (h : Short [] (x ++ y)) : Short [] x :=
    ⟨fun l hl => h.1 l (by rw [feed_append]; exact mem_append_left _ hl), h.rest.room⟩
  induction rs generalizing cur with
  | nil => exact h
  | cons r rs ih =>
    rw [AllShort] at h
    split at h
    case h_1 => exact hfirst (ih h)
    case h_2 => exact hfirst h.1

lemma AllShort.rest {x y : List UInt8} (h : AllShort (x ++ y) rs) :
    AllShort ((feed [] x).2 ++ y) rs := by
  have hrest {u : List UInt8} (h : Short [] (x ++ u)) : Short [] ((feed [] x).2 ++ u) := by
    rw [Short, feed_part (not_mem_feed not_mem_nil x)]
    exact h.rest
  induction rs generalizing y with
  | nil => exact hrest h
  | cons r rs ih =>
    rw [AllShort, append_assoc] at h ⊢
    split at h
    case h_1 => exact ih h
    case h_2 => exact ⟨hrest h.1, h.2⟩

/-- All lines are told in the end, if the log is read to its end first. -/
def Slurped (tag : Option (List UInt8)) (rs : List Round) : Prop :=
  ∀ cut fuel (t : Tail), t.off ≤ t.file.length → 10 ∉ t.buf → AllShort (t.buf ++ t.unread) rs →
    t.file.length - t.off ≤ fuel → (rs.foldl (round tag) (slurpTail tag cut fuel t)).shown =
      t.shown ++ (told (t.buf ++ t.unread) rs).filter (isShown tag)

/-- **One turn of the loop.** -/
theorem round_eq {r : Round} (hrs : Slurped tag rs) (hoff : t.off ≤ t.file.length)
    (hbuf : 10 ∉ t.buf)
    (hshort : AllShort (t.buf ++ t.unread) (r :: rs)) :
    (rs.foldl (round tag) (round tag t r)).shown =
      t.shown ++ (told (t.buf ++ t.unread) (r :: rs)).filter (isShown tag) := by
  set t₁ : Tail := { t with file := t.file ++ r.appended } with ht₁
  have hoff₁ : t₁.off ≤ t₁.file.length :=
    hoff.trans (by rw [ht₁, length_append]; exact Nat.le_add_right _ _)
  have hunread : t₁.unread = t.unread ++ r.appended := drop_append_of_le_length hoff
  have hcur : t.buf ++ t.unread ++ r.appended = t.buf ++ t₁.unread := by rw [hunread, append_assoc]
  rw [AllShort, hcur] at hshort
  rw [round, told, hcur]
  split at hshort
  case h_1 => exact hrs r.cut _ t₁ hoff₁ hbuf hshort (Nat.sub_le _ _)
  case h_2 f _ =>
    have hfirst := hshort.1
    rw [Short, feed_part hbuf] at hfirst
    rw [slurpTail_eq r.cut _ hoff₁ hbuf hfirst (Nat.sub_le _ _),
      hrs r.cut' f.length ⟨f, 0, [], _⟩ (Nat.zero_le _) not_mem_nil hshort.2 le_rfl,
      feed_part hbuf, filter_append, ← append_assoc]
    rfl

lemma slurped (tag : Option (List UInt8)) (rs : List Round) : Slurped tag rs := by
  induction rs with
  | nil =>
    intro cut fuel t hoff hbuf hshort hfuel
    rw [AllShort, Short, feed_part hbuf] at hshort
    rw [foldl_nil, slurpTail_eq cut fuel hoff hbuf hshort hfuel, told, feed_part hbuf]
  | cons r rs ih =>
    intro cut fuel t hoff hbuf hshort hfuel
    have hfirst := hshort.first
    rw [Short, feed_part hbuf] at hfirst
    set t' : Tail := ⟨t.file, t.file.length, (feed t.buf t.unread).2,
      t.shown ++ (feed t.buf t.unread).1.filter (isShown tag)⟩ with ht'
    have hend : t'.unread = [] := drop_length
    have hnext := AllShort.rest (x := t.buf ++ t.unread) (y := [])
      (by rw [append_nil]; exact hshort)
    have htold := told_append (t.buf ++ t.unread) [] (r :: rs)
    rw [append_nil, feed_part hbuf] at htold hnext
    rw [slurpTail_eq cut fuel hoff hbuf hfirst hfuel, foldl_cons,
      round_eq ih le_rfl (not_mem_feed hbuf _)
      (by rw [hend, append_nil]; exact hnext), hend, htold, filter_append, ← append_assoc]

end Reading

/-! ### Where to begin -/

section Start

variable {tag : Option (List UInt8)} {ls : List (List UInt8)} {rounds : List Round}

lemma ended_cons (l : List UInt8) (ls : List (List UInt8)) : ended
    (l :: ls) = l ++ 10 :: ended ls := by
  rw [ended, flatMap_cons, append_assoc]
  rfl

lemma length_ended_cons (l : List UInt8) (ls : List (List UInt8)) :
    (ended (l :: ls)).length = l.length + 1 + (ended ls).length := by
  rw [ended_cons, length_append, length_cons]
  omega

/-- **What is left out**: the end of a line, or a whole one. -/
theorem window_cases (hls : ∀ l ∈ ls, 10 ∉ l) (hne : ls ≠ []) : ∃ part rest, 10 ∉ part ∧
    window ls = part ++ 10 :: ended rest ∧ (∀ l ∈ rest, l ∈ ls) ∧
    (((BUFLEN < (ended ls).length ∧ (ended (lastLines ls)).length ≠ BUFLEN) ∧ lastLines ls = rest) ∨
      (¬(BUFLEN < (ended ls).length ∧ (ended (lastLines ls)).length ≠ BUFLEN) ∧
        lastLines ls = part :: rest)) := by
  induction ls with
  | nil => exact absurd rfl hne
  | cons l ls ih =>
    have hlen := length_ended_cons l ls
    have hl := hls l mem_cons_self
    have hmem : ∀ l' ∈ ls, l' ∈ l :: ls := fun _ => mem_cons_of_mem l
    rw [window, lastLines]
    split
    case isTrue hle =>
      refine ⟨l, ls, hl, ?_, hmem, .inr ⟨by omega, rfl⟩⟩
      rw [Nat.sub_eq_zero_of_le hle, drop_zero, ended_cons]
    case isFalse hlong =>
      rcases lt_or_ge (ended ls).length BUFLEN with hlt | hge
      · -- it is in this line that it begins
        have hlast : lastLines ls = ls := by
          cases ls with
          | nil => rfl
          | cons l' ls => exact if_pos hlt.le
        refine ⟨l.drop ((ended (l :: ls)).length - BUFLEN), ls, fun h => hl (mem_of_mem_drop h), ?_,
          hmem,
          .inl ⟨⟨by omega, by rw [hlast]; omega⟩, hlast⟩⟩
        rw [ended_cons, drop_append_of_le_length (by rw [← ended_cons]; omega)]
      · obtain ⟨part, rest, hpart, hwin, hrest, hcases⟩ :=
          ih (fun l' hl' => hls l' (hmem l' hl')) (by
          rintro rfl
          exact absurd hge (by decide))
        refine ⟨part, rest, hpart, ?_, fun l' hl' => hmem l' (hrest l' hl'), ?_⟩
        · have hback : (ended (l :: ls)).length - BUFLEN =
            (l ++ [10]).length + ((ended ls).length - BUFLEN) := by
            rw [length_append, length_singleton]
            omega
          have happ : ended (l :: ls) = (l ++ [10]) ++ ended ls := by
            rw [ended_cons, append_assoc]
            rfl
          rw [hback, happ, ← hwin, window, drop_length_add_append]
        · rcases hcases with ⟨⟨h1, h2⟩, heq⟩ | ⟨hnot, heq⟩
          · exact .inl ⟨⟨by omega, h2⟩, heq⟩
          · refine .inr ⟨fun h => hnot ⟨Nat.lt_of_le_of_ne hge fun hsame => h.2 ?_, h.2⟩, heq⟩
            cases ls with
            | nil => exact absurd hge (by decide)
            | cons l' ls => rw [lastLines, if_pos hsame.ge, hsame]

/-- **What is read first.** -/
theorem seekToStartOfLine_eq {part rest : List UInt8} (cut : ℕ) (hpart : 10 ∉ part)
    (hwin : window ls = part ++ 10 :: rest) (hne : ls ≠ []) :
    (10 ∉ (window ls).take (max 1 cut) ∧ seekToStartOfLine cut ⟨ended ls, 0, [], []⟩ = none) ∨
    ∃ t, seekToStartOfLine cut ⟨ended ls, 0, [], []⟩ = some t ∧ t.off ≤ t.file.length ∧
      t.shown = [] ∧
      t.buf ++ t.unread = rest ∧ 10 ∈ (window ls).take (max 1 cut) ∧
        ((window ls).length ≤ max 1 cut ↔ t.unread = []) := by
  have hpos : (ended ls).length ≠ 0 := by
    obtain ⟨l, ls, rfl⟩ := exists_cons_of_ne_nil hne
    rw [length_ended_cons]
    omega
  have hwinlen : (window ls).length = (ended ls).length - ((ended ls).length - BUFLEN) :=
    length_drop
  set off := if BUFLEN > (ended ls).length then 0 else (ended ls).length - BUFLEN with hoff
  have hoff' : off = (ended ls).length - BUFLEN := by
    rw [hoff]
    split <;> omega
  have hlen : readLen cut ⟨ended ls, off, [], []⟩ = min (max 1 cut) (window ls).length := by
    show min _ (min (BUFLEN - 0) ((ended ls).length - off)) = _
    omega
  have htake : (window ls).take (min (max 1 cut) (window ls).length) = (window ls).take
    (max 1 cut) := by
    rw [← take_take, take_length]
  rw [seekToStartOfLine, if_neg hpos]
  dsimp only
  rw [← hoff, hlen]
  have hbuf : (readChunk (min (max 1 cut) (window ls).length) ⟨ended ls, off, [], []⟩).buf =
    (window ls).take (max 1 cut) := by
    rw [← htake, window, ← hoff']
    rfl
  rw [hbuf]
  rcases findLineEnd_eq ((window ls).take (max 1 cut)) with ⟨hno, heq⟩ |
    ⟨line, rest', hline, hsplit, heq⟩
  · rw [heq]
    exact .inl ⟨hno, rfl⟩
  · rw [heq]
    refine .inr ⟨_, rfl, ?_, rfl, ?_, ?_, ?_⟩
    · show off + min _ _ ≤ (ended ls).length
      omega
    · have hall : line ++ 10 :: (rest' ++ (window ls).drop (min (max 1 cut) (window ls).length)) =
        part ++ 10 :: rest := by
        rw [← hwin, ← cons_append, ← append_assoc, ← hsplit, ← htake, take_append_drop]
      have hsame := congrArg findLineEnd hall
      rw [findLineEnd_line hline, findLineEnd_line hpart] at hsame
      rw [← (Prod.mk.inj (Option.some.inj hsame)).2, window, drop_drop, ← hoff']
      rfl
    · rw [hsplit]
      exact mem_append_right _ mem_cons_self
    · show _ ↔ (ended ls).drop (off + _) = []
      rw [drop_eq_nil_iff]
      omega

/-- Lines that have been told. -/
theorem told_ended (hls : ∀ l ∈ ls, 10 ∉ l) (rounds : List Round) : told
    (ended ls) rounds = ls ++ told [] rounds := by
  have happ := told_append (ended ls) [] rounds
  rw [append_nil, feed_ended hls] at happ
  exact happ

variable (tag) in
/-- **What comes of it** if so much has been read: everything, if there is another read or nothing
is left. -/
theorem shown_of_start {t : Tail} (hls : ∀ l ∈ ls, 10 ∉ l)
    (hoff : t.off ≤ t.file.length) (hnew : t.shown = [])
    (hall : t.buf ++ t.unread = ended ls) (hshort : AllShort (ended ls) rounds) :
    ((rounds = [] → t.unread = []) → (rounds.foldl (round tag) (processChunk tag t)).shown =
      (told (ended ls) rounds).filter (isShown tag)) ∧
    (¬(rounds = [] → t.unread = []) → (rounds.foldl (round tag) (processChunk tag t)).shown.length <
      (told (ended ls) rounds).length) := by
  have htold := told_append t.buf t.unread rounds
  have hrest := not_mem_feed not_mem_nil t.buf
  rw [hall] at htold
  rw [← hall] at hshort
  rw [processChunk_eq, hnew, htold, nil_append]
  cases rounds with
  | nil =>
    rw [foldl_nil, told, feed_part hrest]
    refine ⟨fun h => ?_, fun h => ?_⟩
    · rw [h rfl, feed, append_nil]
    · -- what is left ends with a line
      have hend := congrArg (fun u => (feed [] u).2) hall
      have hne : t.unread ≠ [] := fun hnil => h fun _ => hnil
      rw [feed_append, feed_ended hls] at hend
      have hmem : 10 ∈ t.unread := by
        by_contra hno
        rw [feed_of_not_mem hno] at hend
        exact hne (append_eq_nil_iff.mp hend).2
      obtain ⟨x, y, hxy, hx⟩ := eq_append_cons_of_mem hmem
      rw [length_append, hxy, feed_append, feed_of_not_mem hx, feed, if_pos rfl,
        nil_append, length_cons]
      exact lt_of_le_of_lt (length_filter_le _ _) (Nat.lt_add_of_pos_right (Nat.succ_pos _))
  | cons r rs =>
    refine ⟨fun _ => ?_, fun h => absurd (fun hnil => by cases hnil) h⟩
    rw [foldl_cons, round_eq (t := ⟨t.file, t.off, (feed [] t.buf).2, _⟩) (slurped tag rs) hoff
      hrest hshort.rest,
      filter_append]
    rfl

/-- **When each line is shown once**: with `-a`, and otherwise if no line is left out at the
beginning, and then if all lines are long enough and have the tag. -/
theorem follows_iff (tag : Option (List UInt8)) (a : Bool) (cut : ℕ → ℕ) (hls : ∀ l ∈ ls, 10 ∉ l)
    (hshort : AllShort (ended ls) rounds) :
    Follows tag a ls cut rounds ↔ (∀ l ∈ expected a ls rounds, isShown tag l = true) ∧
      (a = true ∨ ls = [] ∨ Begins ls (cut 0) rounds) := by
  have hsome {t : Tail} (ht : followLog tag a (ended ls) cut rounds = some t) :
      Follows tag a ls cut rounds ↔ t.shown = expected a ls rounds := by
    rw [Follows, ht]
    exact ⟨fun ⟨t', h, h'⟩ => by cases h; exact h', fun h => ⟨t, rfl, h⟩⟩
  cases a with
  | true =>
    have hstart := slurped tag rounds cut _ ⟨ended ls, 0, [], []⟩
      (Nat.zero_le _) not_mem_nil hshort le_rfl
    rw [hsome (t := rounds.foldl (round tag)
      (slurpTail tag cut (ended ls).length ⟨ended ls, 0, [], []⟩)) rfl]
    refine (Eq.congr_left hstart).trans ?_
    exact filter_eq_self.trans (and_iff_left (.inl rfl)).symm
  | false =>
    rw [or_iff_right Bool.false_ne_true]
    by_cases hne : ls = []
    · subst hne
      have hstart := (shown_of_start tag (t := ⟨[], 0, [], []⟩) hls le_rfl rfl rfl hshort).1
        fun _ => rfl
      rw [hsome (t := rounds.foldl (round tag) (processChunk tag ⟨[], 0, [], []⟩)) rfl, hstart]
      exact filter_eq_self.trans (and_iff_left (.inl rfl)).symm
    · obtain ⟨part, rest, hpart, hwin, hrest, hcases⟩ := window_cases hls hne
      have hrest' : ∀ l ∈ rest, 10 ∉ l := fun l hl => hls l (hrest l hl)
      have hexp : expected false ls rounds = lastLines ls ++ told [] rounds := told_ended (by
        rcases hcases with ⟨-, h⟩ | ⟨-, h⟩
        · rw [h]; exact hrest'
        · rw [h]; exact forall_mem_cons.mpr ⟨hpart, hrest'⟩) rounds
      have htold := told_ended hrest' rounds
      have hshort' : AllShort (ended rest) rounds := by
        have hsplit : ((ended ls).take ((ended ls).length - BUFLEN) ++ (part ++ [10])) ++
          ended rest = ended ls := by
          rw [append_assoc, append_assoc]
          show _ ++ (part ++ 10 :: ended rest) = _
          rw [← hwin, window, take_append_drop]
        rw [← hsplit] at hshort
        have hnext := hshort.rest
        rwa [feed_append, feed_append, feed, if_pos rfl] at hnext
      rw [or_iff_right hne]
      rcases seekToStartOfLine_eq (cut 0) hpart hwin hne with ⟨hno, hseek⟩ |
        ⟨t, hseek, hoff, hnew, hall, hmem, hread⟩
      · have hnone : followLog tag false (ended ls) cut rounds = none := by
          rw [followLog, if_neg Bool.false_ne_true, hseek]
          rfl
        rw [Follows, hnone]
        exact iff_of_false (fun ⟨_, h, _⟩ => by cases h) fun h => hno h.2.ends
      · obtain ⟨hfull, hpartial⟩ := shown_of_start tag hrest' hoff hnew hall hshort'
        have hrun : followLog tag false (ended ls) cut rounds = some
          (rounds.foldl (round tag) (processChunk tag t)) := by
          rw [followLog, if_neg Bool.false_ne_true, hseek]
          rfl
        rw [hsome hrun, hexp]
        rw [htold] at hfull hpartial
        rcases hcases with ⟨⟨hlong, hwithin⟩, hlast⟩ | ⟨hnot, hlast⟩
        · rw [hlast]
          by_cases hdone : rounds = [] → t.unread = []
          · rw [hfull hdone, filter_eq_self]
            exact (and_iff_left ⟨hlong, hwithin, hmem, fun h => hread.mpr (hdone h)⟩).symm
          · refine iff_of_false (fun h => ?_) fun h => hdone fun hnil => hread.mp (h.2.all hnil)
            have hlt := hpartial hdone
            rw [h] at hlt
            exact lt_irrefl _ hlt
        · rw [hlast]
          refine iff_of_false (fun h => ?_) fun h => hnot ⟨h.2.long, h.2.within⟩
          have hlen := congrArg List.length h
          rw [length_append, length_cons] at hlen
          by_cases hdone : rounds = [] → t.unread = []
          · have hle := length_filter_le (isShown tag) (rest ++ told [] rounds)
            rw [hfull hdone] at hlen
            rw [length_append] at hle
            omega
          · have hlt := hpartial hdone
            rw [length_append] at hlt
            omega

end Start

lemma isShown_none {l : List UInt8} (h : TAGSPACE ≤ l.length) : isShown none l = true :=
  if_neg (Nat.not_lt.mpr h)

/-- A line, two of which are in the buffer at once. -/
def longLine : List UInt8 := replicate 4000 97

lemma length_longLine : longLine.length = 4000 := length_replicate

lemma not_mem_longLine : 10 ∉ longLine := fun h => absurd (eq_of_mem_replicate h) (by decide)

/-- A log of three such lines. -/
def longLog : List (List UInt8) := [longLine, longLine, longLine]

lemma length_longLog : (ended longLog).length = 12003 := by
  rw [longLog, length_ended_cons, length_ended_cons, length_ended_cons, length_longLine]
  rfl

lemma lastLines_longLog : lastLines longLog = [longLine, longLine] := by
  have hlen : (ended [longLine, longLine]).length = 8002 := by
    rw [length_ended_cons, length_ended_cons, length_longLine]
    rfl
  have hlong : ¬(ended longLog).length ≤ BUFLEN := by
    rw [length_longLog]
    decide
  rw [longLog] at hlong ⊢
  rw [lastLines, if_neg hlong, lastLines, if_pos (by rw [hlen]; decide)]

/-- A line of fourteen bytes is appended. -/
def oneMore : List Round := [⟨replicate 14 97 ++ [10], none, fun _ => 1, fun _ => 1⟩]

/-- The last two lines of the log are shown, and then the one that is appended. -/
theorem follows_longLog : Follows none false longLog (fun _ => BUFLEN) oneMore := by
  have hls : ∀ l ∈ longLog, 10 ∉ l := by simp [longLog, not_mem_longLine]
  have htold : told [] oneMore = [replicate 14 97] := rfl
  have hlines : expected false longLog oneMore = [longLine, longLine, replicate 14 97] := by
    rw [expected, if_neg Bool.false_ne_true, lastLines_longLog,
      told_ended (by simp [not_mem_longLine]), htold]
    rfl
  have hshort : AllShort (ended longLog) oneMore := by
    have hfeed : feed [] (ended longLog ++ (replicate 14 97 ++ [10])) =
      (longLog ++ [replicate 14 97], []) := by
      rw [feed_append, feed_ended hls]
      rfl
    show Short [] (ended longLog ++ (replicate 14 97 ++ [10]))
    rw [Short, hfeed]
    simp [longLog, length_longLine, BUFLEN]
  refine (follows_iff none false _ hls hshort).mpr ⟨?_, .inr (.inr ⟨?_, ?_, ?_, fun h => ?_⟩)⟩
  · rw [hlines]
    simp only [forall_mem_cons, not_mem_nil, false_implies, implies_true, and_true]
    exact ⟨isShown_none (by rw [length_longLine]; decide),
      isShown_none (by rw [length_longLine]; decide), rfl⟩
  · rw [length_longLog]
    decide
  · rw [lastLines_longLog, length_ended_cons, length_ended_cons, length_longLine]
    decide
  · -- all that fits is read at once, which is more than what is left of the first line
    obtain ⟨part, rest, -, hwin, -, -⟩ := window_cases hls (cons_ne_nil _ _)
    have hlen : (window longLog).length ≤ max 1 BUFLEN := by
      rw [window, length_drop, length_longLog]
      decide
    rw [take_of_length_le hlen, hwin]
    exact mem_append_right _ mem_cons_self
  · cases h

/-- A line of fourteen bytes that is all there is in the log: it is not shown. -/
theorem not_follows : ¬∀ tag a ls cut rounds, (∀ l ∈ ls, 10 ∉ l) → AllShort (ended ls) rounds →
    Follows tag a ls cut rounds := by
  intro h
  have hfeed : feed [] (ended [replicate 14 97]) = ([replicate 14 97], []) := rfl
  have hshort : AllShort (ended [replicate 14 97]) [] := by
    rw [AllShort, Short, hfeed]
    exact ⟨fun l hl => by rw [mem_singleton.mp hl]; decide, by decide⟩
  obtain ⟨t, ht, hshown⟩ := h none false [replicate 14 97] (fun _ => 15) [] (fun l hl => by
    rw [mem_singleton.mp hl]; decide) hshort
  have hrun : followLog none false (ended [replicate 14 97]) (fun _ => 15) [] =
      some ⟨ended [replicate 14 97], 15, [], []⟩ := rfl
  rw [hrun] at ht
  cases ht
  cases hshown

end Minibase.Syslog
