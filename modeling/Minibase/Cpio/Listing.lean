import Minibase.Util.Output
import Minibase.Cpio.Reading

/-!
# Archives that are listed

`cmd_list` of `src/cpio/cpio_extract.c`. A name is printed with the zero behind it and a
newline, and what follows it is skipped up to the next multiple of four. How much this is has
to fit a `uint`, and for the three largest sizes it does not (`Cpio.alignedSize`): nothing is
skipped then, and the next header is looked for in the body of the file.

What comes out is a matter of the bytes of the archive (`Cpio.cmdList_lists`,
`Cpio.cmdList_of_lists`).
-/

namespace Minibase.Cpio

open List Option

/-- `align4`, as a `uint`. -/
def alignedSize (filesize : ℕ) : ℕ := align4 filesize % 2 ^ 32

/-- What the system does to a listing. -/
structure ListEnv extends Env where
  devNull : ℕ → ℤ
  stdout : Outcomes

/-- The buffer for what is printed, which has all of the text. -/
structure Out (o : Outcomes) where
  bo : Bufout
  text : List UInt8
  holds : bo.Holds HLEN [] text
  works : (∀ k, MAX_RW ≤ o k) → bo.Works

/-- `struct top`, with the buffer. -/
structure Listing (o : Outcomes) where
  st : Ext
  null : ℤ
  out : Out o

namespace Out

variable {o : Outcomes}

/-- Nothing has been printed. -/
def empty (o : Outcomes) : Out o where
  bo := bufoutset (fun _ => 0) HLEN ⟨0, []⟩
  text := []
  holds := bufoutset_holds _ (by decide) (by decide) ⟨0, []⟩
  works := fun _ _ h => absurd h not_mem_nil

/-- `bufout`, whose result nobody asks for. -/
def put (out : Out o) (data : List UInt8) : Out o where
  bo := (bufout o out.bo data).2
  text := out.text ++ data
  holds := bufout_holds o out.holds data
  works := fun ho => (out.works ho).bufout ho data

/-- `bufoutflush`, with what has been written then. -/
def flush (out : Out o) : List UInt8 := (bufoutflush o out.bo).2.sink.written

/-- **All of the text is written** if no write fails. -/
theorem flush_eq (out : Out o) (ho : ∀ k, MAX_RW ≤ o k) : out.flush = out.text :=
  (bufoutflush_holds o out.holds).2.2.2 ((out.works ho).flush ho)

end Out

variable {env : ListEnv}

def devNullFd (env : ListEnv) (l : Listing env.stdout) : Except Failure (Listing env.stdout) :=
  if l.null > 0 then .ok l
  else
    let fd := env.devNull l.st.clock
    if fd < 0 then .error ⟨none, some [0x2F, 0x64, 0x65, 0x76, 0x2F, 0x6E, 0x75, 0x6C, 0x6C], fd⟩
    else .ok { l with st := { l.st with clock := l.st.clock + 1 }, null := fd }

def skipFile (env : ListEnv) (filesize : ℕ) (l : Listing env.stdout) :
    Except Failure (Listing env.stdout) :=
  let aligned := alignedSize filesize
  let block := if aligned < HLEN then aligned else HLEN
  let (got, st) := grabCached block l.st
  let l := { l with st := st }
  if got ≥ aligned then .ok l
  else do
    let l ← devNullFd env l
    let (_, st) ← streamRest env.toEnv (aligned - got) l.st
    .ok { l with st := st }

/-- `list_single_entry`: whether there may be more. -/
def listSingleEntry (env : ListEnv) (hdr : List UInt8) (l : Listing env.stdout) :
    Except Failure (Bool × Listing env.stdout) := do
  checkMagic l.st hdr
  let filesize ← parseSize l.st hdr FILESIZE
  let namesize ← parseSize l.st hdr NAMESIZE
  let pos := l.st.hwin.hptr
  let st ← readName env.toEnv namesize l.st
  let st := { st with reclen := st.reclen + i32 (align4 filesize) }
  let name := (st.hwin.head.drop pos).take namesize
  let cmp ← checkName st name
  if cmp = 0 then .ok (false, { l with st := st })
  else do
    let l ← skipFile env filesize { l with st := st, out := (l.out.put name).put [newline] }
    .ok (true, l)

/-- `read_list_entries`, as far as it comes with so many headers: nothing if it is still
going on. -/
def readListEntries (env : ListEnv) : ℕ → Listing env.stdout →
    Option (Except Failure (Listing env.stdout))
  | 0, _ => none
  | k + 1, l =>
    match readHead env.toEnv l.st with
    | .error e => some (.error e)
    | .ok (none, st) => some (.ok { l with st := st })
    | .ok (some hdr, st) =>
      match listSingleEntry env hdr { l with st := st } with
      | .error e => some (.error e)
      | .ok (false, l) => some (.ok l)
      | .ok (true, l) => readListEntries env k l

/-- `cmd_list`, once the archive is open, with what has been written to the standard output. -/
def cmdList (env : ListEnv) (bytes : List UInt8) : Option (Except Failure (List UInt8)) :=
  (readListEntries env (bytes.length + 1) ⟨Ext.start bytes, -1, Out.empty env.stdout⟩).map fun r =>
    r.map fun l => l.out.flush

/-! ### What an archive lists -/

/-- The entry with this header: what there is to read after it, and what is printed. -/
def listAt (hdr rest : List UInt8) : Option (Option (View × List UInt8)) := do
  let (namesize, filesize) ← sizeFields hdr
  let (bytes, rest) ← splitName namesize rest
  let name ← nameIn bytes
  if name = trailer then some none
  else some (some ((0, rest.drop (alignedSize filesize)), bytes ++ [newline]))

/-- **The archive can be listed to its end**, and this is printed. -/
abbrev Lists (v : View) (text : List UInt8) : Prop := Turns.Finishes (nextBy listAt) v text

/-- Nothing fails that the archive has no part in. -/
structure ListEnv.Benign (env : ListEnv) : Prop extends env.toEnv.Benign where
  devNull : ∀ k, 0 ≤ env.devNull k
  stdout : ∀ k, MAX_RW ≤ env.stdout k

/-- What there is to read, and what was printed so far. -/
def Listing.view {o : Outcomes} (l : Listing o) : View := l.st.view

def Listing.text {o : Outcomes} (l : Listing o) : List UInt8 := l.out.text

/-! ### Listing as it is done -/

lemma devNullFd_agrees (l : Listing env.stdout) :
    Agrees env.Benign (devNullFd env l) (some ()) fun l' _ =>
      l'.out = l.out ∧ ∃ c, l'.st = { l.st with clock := c } := by
  rw [devNullFd]
  dsimp only
  split_ifs with h1 h2
  · exact Agrees.ok ⟨rfl, l.st.clock, rfl⟩
  · exact Agrees.never _ fun hbenign => absurd (hbenign.devNull l.st.clock) (Int.not_le.mpr h2)
  · exact Agrees.ok ⟨rfl, _, rfl⟩

/-- **`skip_file`** skips as much as it takes to be, or what there is. -/
theorem skipFile_agrees (filesize : ℕ) (l : Listing env.stdout) :
    Agrees env.Benign (skipFile env filesize l) (some (l.st.rest.drop (alignedSize filesize)))
      fun l' rest => rest = l'.st.rest ∧ l'.st.skip = l.st.skip ∧ l'.out = l.out := by
  obtain ⟨aligned, haligned⟩ : ∃ aligned, alignedSize filesize = aligned := ⟨_, rfl⟩
  obtain ⟨block, hblock⟩ : ∃ block, (if aligned < HLEN then aligned else HLEN) = block := ⟨_, rfl⟩
  have hlen := length_tail l.st.hwin
  have hmax := l.st.hwin.head_le
  obtain ⟨w, hgrab, -, htail, -⟩ := grabCached_eq block l.st
  have hsame : min block l.st.hwin.tail.length = min aligned l.st.hwin.tail.length := by
    rw [← hblock]
    split_ifs <;> omega
  have hdrop : w.tail = l.st.hwin.tail.drop aligned := by
    rw [htail, drop_eq_drop_min, hsame, ← drop_eq_drop_min]
  rw [skipFile, haligned, hblock]
  rw [hgrab, hsame]
  dsimp only
  split_ifs with hall
  · -- all of it was in the window
    refine Agrees.ok ⟨?_, rfl, rfl⟩
    show _ = w.tail ++ l.st.stream
    rw [hdrop, Ext.rest, drop_append_of_le_length (by omega)]
  · -- the window is empty by now
    have hmin : min aligned l.st.hwin.tail.length = l.st.hwin.tail.length := by omega
    rw [hmin]
    refine Agrees.bind (y := some ()) (g := fun _ => some _) (devNullFd_agrees _) ?_
    rintro l1 _ ⟨hout, c, hst⟩
    refine Agrees.bind (y := some ()) (g := fun _ => some _)
      ((streamFrom_agrees (le_refl _)).weaken ListEnv.Benign.toBenign) ?_
    rintro ⟨streamed, _⟩ _ ⟨-, c', rfl⟩
    refine Agrees.ok ⟨?_, ?_, hout⟩
    · rw [hst]
      show _ = w.tail ++ l.st.stream.drop (aligned - l.st.hwin.tail.length)
      rw [hdrop, Ext.rest, drop_append]
    · rw [hst]

/-- **`list_single_entry`** prints the name of the entry. -/
theorem listSingleEntry_agrees {l : Listing env.stdout} (hdr : List UInt8)
    (hptr : l.st.hwin.hptr ≤ HDRSIZE + 3) (hskip : l.st.skip = 0) :
    Agrees env.Benign (listSingleEntry env hdr l) (listAt hdr l.st.rest)
      (Turns.Turned Listing.view Listing.text l) := by
  refine sizeFields_agrees (g := fun filesize namesize => do
    let (bytes, rest) ← splitName namesize l.st.rest
    let name ← nameIn bytes
    if name = trailer then some none
    else some (some ((0, rest.drop (alignedSize filesize)), bytes ++ [newline])))
    fun filesize namesize => ?_
  refine Agrees.bind ((readName_agrees hptr).weaken ListEnv.Benign.toBenign) ?_
  rintro st1 _ ⟨rfl, -, hskip1, hpage⟩
  have hlen : ((st1.hwin.head.drop l.st.hwin.hptr).take namesize).length ≤ PAGE :=
    (length_take_le _ _).trans hpage
  refine Agrees.bind (checkName_agrees hlen) ?_
  rintro cmp _ ⟨rfl, hcmp⟩
  refine Agrees.ite hcmp (fun _ => Agrees.ok (Turns.Turned.last rfl)) fun _ => ?_
  refine Agrees.bind (y := some (st1.rest.drop (alignedSize filesize)))
    (g := fun rest => some (some ((0, rest), _))) (skipFile_agrees filesize _) ?_
  rintro l2 rest ⟨hrest, hskip2, hout⟩
  have hview : ((0, rest) : View) = l2.view :=
    Prod.ext (hskip2.trans (hskip1.trans hskip)).symm hrest
  rw [hview]
  refine Agrees.ok (Turns.Turned.turn ?_)
  rw [Listing.text, hout]
  exact append_assoc ..

lemma listAt_length {hdr rest : List UInt8} {v : View} {text : List UInt8}
    (h : listAt hdr rest = some (some (v, text))) : v.2.length ≤ rest.length := by
  obtain ⟨⟨namesize, filesize⟩, -, h⟩ := bind_eq_some_iff.mp h
  obtain ⟨⟨bytes, rest1⟩, hname, h⟩ := bind_eq_some_iff.mp h
  obtain ⟨name, -, h⟩ := bind_eq_some_iff.mp h
  have hrest1 : rest1.length ≤ rest.length := splitName_length hname
  split_ifs at h
  · cases h
  · obtain rfl := (Prod.mk.inj (Option.some.inj (Option.some.inj h))).1
    show (rest1.drop _).length ≤ _
    rw [length_drop]
    omega

/-- One turn of the loop of `read_list_entries`: whether there may be more. -/
def listRound (env : ListEnv) (l : Listing env.stdout) :
    Except Failure (Bool × Listing env.stdout) := do
  match ← readHead env.toEnv l.st with
  | (none, st) => .ok (false, { l with st := st })
  | (some hdr, st) => listSingleEntry env hdr { l with st := st }

lemma readListEntries_eq (env : ListEnv) (k : ℕ) (l : Listing env.stdout) :
    readListEntries env k l = Turns.loop (listRound env) k l := by
  induction k generalizing l with
  | zero => rfl
  | succ k ih =>
    have hfun : readListEntries env k = Turns.loop (listRound env) k := funext ih
    rw [readListEntries, Turns.loop, listRound, hfun]
    rcases readHead env.toEnv l.st with e | ⟨- | hdr, st1⟩
    · rfl
    · rfl
    · simp only [bind, Except.bind]
      rcases listSingleEntry env hdr { l with st := st1 } with e | ⟨- | -, l2⟩
      · rfl
      · rfl
      · rfl

/-- **One turn** reads the next entry. -/
theorem listRound_agrees (env : ListEnv) (l : Listing env.stdout) :
    Agrees env.Benign (listRound env l) (nextBy listAt l.view)
      (Turns.Turned Listing.view Listing.text l) := by
  refine Agrees.bind ((readHead_agrees env.toEnv l.st).weaken ListEnv.Benign.toBenign) ?_
  rintro ⟨hdr, st1⟩ _ ⟨rfl, -, hskip, hptr⟩
  have hle : st1.hwin.hptr ≤ HDRSIZE + 3 :=
    hptr.trans (Nat.add_le_add_left (Nat.le_of_lt_succ l.st.skip_lt) _)
  rcases hdr with - | hdr
  · exact Agrees.ok (Turns.Turned.last rfl)
  · refine (listSingleEntry_agrees (l := { l with st := st1 }) hdr hle hskip).mono ?_
    rintro _ _ (htext | htext)
    · exact Turns.Turned.last htext
    · exact Turns.Turned.turn htext

/-- **The loop** reads the archive. -/
theorem readListEntries_follows (env : ListEnv) :
    Turns.Follows env.Benign (listRound env) (nextBy listAt) Listing.view Listing.text
      fun v => v.2.length :=
  ⟨listRound_agrees env, nextBy_length listAt_length⟩

/-- **A listing that finishes** has read the archive to its end, and has printed all of it. -/
theorem cmdList_lists {bytes out : List UInt8} (h : cmdList env bytes = some (.ok out))
    (henv : env.Benign) : Lists (0, bytes) out := by
  obtain ⟨r, hloop, hr⟩ := map_eq_some_iff.mp h
  rcases r with e | l
  · cases hr
  · rw [readListEntries_eq] at hloop
    obtain ⟨text, hlists, htext⟩ := (readListEntries_follows env).finishes hloop
    have hout : l.out.flush = text := by
      rw [l.out.flush_eq henv.stdout]
      exact htext
    obtain rfl : l.out.flush = out := Except.ok.inj hr
    rw [hout]
    exact hlists

/-- **It finishes where the archive can be listed.** -/
theorem cmdList_of_lists {bytes text : List UInt8} (h : Lists (0, bytes) text) (henv : env.Benign) :
    cmdList env bytes = some (.ok text) := by
  obtain ⟨l, hloop, htext⟩ := (readListEntries_follows env).loop_of_finishes (k := bytes.length + 1)
    (s := ⟨Ext.start bytes, -1, Out.empty env.stdout⟩) henv h (Nat.lt_succ_self _) rfl
  rw [cmdList, readListEntries_eq, hloop]
  show some (Except.ok l.out.flush) = _
  rw [l.out.flush_eq henv.stdout]
  exact congrArg (fun t => some (Except.ok t)) htext

end Minibase.Cpio
