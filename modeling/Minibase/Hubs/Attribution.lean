import Minibase.Hubs.Exits

/-!
# Whose descriptor an event is about

Epoll hands back the key a descriptor was registered with, and the hubs take the entry of the
table it names for the one the event is about. `Hubs.Attributed` says that this is so:
every registration of a process names an entry in use, which records the descriptor that was
registered, and that descriptor still stands for the file that was. It may be lost when a
process ends without a word, when its entry is flushed, or when another of its name is started;
everything else keeps it (`Hubs.events_attributed`).
-/

namespace Minibase.Hubs

open List Option Kernel

variable {D : Type}

/-! ### Keys -/

variable {i : ℕ} {g : ℕ}

lemma pkey_eq (hi : i < 65536) : pkey g i = g * 65536 + i := by
  have := Nat.shiftLeft_add_eq_or_of_lt (a := g) (show i < 2 ^ 16 from hi)
  rw [Nat.shiftLeft_eq] at this
  exact this.symm

lemma pkeyGroup_pkey (hi : i < 65536) : pkeyGroup (pkey g i) = g := by
  rw [pkey_eq hi, pkeyGroup]
  omega

lemma pkeyIndex_pkey (hi : i < 65536) : pkeyIndex (pkey g i) = i := by
  rw [pkey_eq hi, pkeyIndex]
  omega

/-! ### What is recorded where -/

/-- The descriptors of an entry in use. -/
def slot (h : Hub D) (i : ℕ) : Option D := (h.procs[i]?.filter Proc.inUse).map Proc.fds

/-- The descriptor recorded for a group of keys and an index: that of a connection, or one of a
process. -/
def recorded (desc : D → ℕ → Option ℤ) (h : Hub D) (g i : ℕ) : Option ℤ :=
  if g = 1 then h.conns[i]? else (slot h i).bind fun fds => desc fds g

/-- A registration made for a process, with a key of one of the groups looked at. -/
def OfKind (P : ℕ → Bool) (r : Reg) : Prop := 2 ≤ pkeyGroup r.key ∧ P (pkeyGroup r.key) = true
deriving Decidable

/-- All groups. -/
abbrev anyGroup : ℕ → Bool := fun _ => true

/-- Epoll still watches something for an entry. -/
def registered (P : ℕ → Bool) (h : Hub D) (i : ℕ) : Bool :=
  h.kernel.regs.any fun r => OfKind P r && pkeyIndex r.key = i

lemma recorded_conn (desc : D → ℕ → Option ℤ) (h : Hub D) (c : ℕ) :
    recorded desc h 1 c = h.conns[c]? := if_pos rfl

lemma recorded_proc (desc : D → ℕ → Option ℤ) (h : Hub D) (hg : 2 ≤ g) (i : ℕ) :
    recorded desc h g i = (slot h i).bind fun fds => desc fds g := if_neg (by omega)

variable {P : ℕ → Bool} {desc : D → ℕ → Option ℤ} {h h' : Hub D}

lemma registered_iff : registered P h i = true ↔
    ∃ r ∈ h.kernel.regs, OfKind P r ∧ pkeyIndex r.key = i := by
  simp [registered]

/-- The connections below `nconns`: a descriptor that is not standard input, or none. -/
def Clients (conns : List ℤ) : Prop := (∀ fd ∈ conns, fd ≠ 0) ∧ conns.length ≤ NCONNS

/-- **The registrations of processes are right**, of the groups looked at: the descriptor
registered is the one recorded, and it has not been closed. Those recorded are open, and no two
are the same. -/
structure Attributed (P : ℕ → Bool) (desc : D → ℕ → Option ℤ) (h : Hub D) : Prop where
  sound : h.kernel.Sound
  keyed : ∀ r ∈ h.kernel.regs, OfKind P r →
    recorded desc h (pkeyGroup r.key) (pkeyIndex r.key) = some r.fd
  live : ∀ r ∈ h.kernel.regs, OfKind P r → h.kernel.fileOf r.fd = some r.file
  opened : ∀ g i fd, 1 ≤ g → recorded desc h g i = some fd → 0 < fd → (h.kernel.fileOf fd).isSome
  single : ∀ g i g' i' fd, 1 ≤ g → 1 ≤ g' → recorded desc h g i = some fd →
    recorded desc h g' i' = some fd → 0 < fd → g = g' ∧ i = i'
  clients : Clients h.conns

/-- What `grab_conn_slot` does. -/
theorem grabConnSlot_spec {fd : ℤ} {c : ℕ} (hg : h.grabConnSlot fd = some (c, h'))
    (hc : Clients h.conns) (hfd : 0 < fd) :
    c < 65536 ∧ h'.conns[c]? = some fd ∧ (∀ c', c' ≠ c → h'.conns[c']? = h.conns[c']?) ∧
      Clients h'.conns := by
  rw [Hub.grabConnSlot] at hg
  split at hg
  · rename_i c' hc'
    obtain ⟨rfl, rfl⟩ := Prod.mk.inj (Option.some.inj hg)
    obtain ⟨hlt, -, -⟩ := findIdx?_eq_some_iff_getElem.mp hc'
    have hle := hc.2
    rw [NCONNS] at hle
    refine ⟨by omega, getElem?_set_self hlt, fun k hk => getElem?_set_ne hk.symm, ?_, ?_⟩
    · intro fd' hfd'
      rcases mem_or_eq_of_mem_set hfd' with hmem | rfl
      · exact hc.1 fd' hmem
      · exact Int.ne_of_gt hfd
    · show (h.conns.set c' fd).length ≤ NCONNS
      rw [length_set]
      exact hc.2
  · split at hg
    · cases hg
    · rename_i hroom
      obtain ⟨rfl, rfl⟩ := Prod.mk.inj (Option.some.inj hg)
      rw [NCONNS] at hroom
      refine ⟨by omega, getElem?_concat_length, fun k hk => ?_, ?_, ?_⟩
      · show (h.conns ++ [fd])[k]? = h.conns[k]?
        rcases lt_or_ge k h.conns.length with hlt | hge
        · exact getElem?_append_left hlt
        · rw [getElem?_eq_none hge, getElem?_eq_none]
          rw [length_append, length_singleton]
          omega
      · intro fd' hfd'
        rcases mem_append.mp hfd' with hmem | hmem
        · exact hc.1 fd' hmem
        · obtain rfl := mem_singleton.mp hmem
          exact Int.ne_of_gt hfd
      · show (h.conns ++ [fd]).length ≤ NCONNS
        rw [length_append, length_singleton, NCONNS]
        omega

namespace Attributed

section

variable (ha : Attributed P desc h)
include ha

/-- Something is forgotten, or closed: what remains is as before. -/
theorem shrink (hs : h'.kernel.Sound)
    (hregs : ∀ r ∈ h'.kernel.regs, OfKind P r → r ∈ h.kernel.regs ∧
      recorded desc h' (pkeyGroup r.key) (pkeyIndex r.key) =
        recorded desc h (pkeyGroup r.key) (pkeyIndex r.key) ∧
      h'.kernel.fileOf r.fd = h.kernel.fileOf r.fd)
    (hrec : ∀ g i fd, 1 ≤ g → recorded desc h' g i = some fd → 0 < fd →
      recorded desc h g i = some fd ∧ h'.kernel.fileOf fd = h.kernel.fileOf fd)
    (hconns : Clients h'.conns) : Attributed P desc h' where
  sound := hs
  keyed r hr hg := by
    obtain ⟨hr', heq, -⟩ := hregs r hr hg
    exact heq.trans (ha.keyed r hr' hg)
  live r hr hg := by
    obtain ⟨hr', -, heq⟩ := hregs r hr hg
    exact heq.trans (ha.live r hr' hg)
  opened g i fd hg hfd hpos := by
    obtain ⟨hfd', heq⟩ := hrec g i fd hg hfd hpos
    rw [heq]
    exact ha.opened g i fd hg hfd' hpos
  single g i g' i' fd hg hg' hfd hfd' hpos :=
    ha.single g i g' i' fd hg hg' (hrec g i fd hg hfd hpos).1 (hrec g' i' fd hg' hfd' hpos).1 hpos
  clients := hconns

/-- Some descriptors are forgotten, of entries that epoll does not watch any more. -/
theorem forgot (hk : h'.kernel = h.kernel) (hc : h'.conns = h.conns)
    (hp : ∀ g i, 2 ≤ g → recorded desc h' g i = recorded desc h g i ∨
      (recorded desc h' g i = none ∧ registered P h i = false)) : Attributed P desc h' := by
  refine ha.shrink (hk ▸ ha.sound) (fun r hr hg => ?_) (fun g i fd hg hfd _ => ?_) (hc ▸ ha.clients)
  · rw [hk] at hr ⊢
    refine ⟨hr, (hp _ _ hg.1).resolve_right ?_, rfl⟩
    rintro ⟨-, hreg⟩
    rw [registered_iff.mpr ⟨r, hr, hg, rfl⟩] at hreg
    cases hreg
  · rw [hk]
    refine ⟨?_, rfl⟩
    rcases lt_or_ge g 2 with h1 | h2
    · obtain rfl : g = 1 := by omega
      rwa [recorded_conn, ← hc, ← recorded_conn desc]
    · rcases hp g i h2 with heq | ⟨hnone, -⟩
      · rwa [← heq]
      · rw [hnone] at hfd
        cases hfd

/-- Some entries are forgotten, which epoll does not watch any more. -/
theorem thin (hk : h'.kernel = h.kernel) (hc : h'.conns = h.conns)
    (hp : ∀ i, slot h' i = slot h i ∨ (slot h' i = none ∧ registered P h i = false)) :
    Attributed P desc h' := by
  refine ha.forgot hk hc fun g i hg => ?_
  rw [recorded_proc desc h' hg, recorded_proc desc h hg]
  rcases hp i with heq | ⟨hnone, hreg⟩
  · exact .inl (by rw [heq])
  · exact .inr ⟨by rw [hnone]; rfl, hreg⟩

/-- **A descriptor is closed**, after it was taken out of epoll or when no one else has a copy
of the file. -/
theorem closed {g₀ i₀ : ℕ} {fd : ℤ} (hg₀ : 1 ≤ g₀) (hfd : recorded desc h g₀ i₀ = some fd)
    (hpos : 0 < fd) (hk : h'.kernel = (h.kernel.del fd).close fd ∨
      h'.kernel = h.kernel.close fd ∧ ∀ f, h.kernel.fileOf fd = some f → f ∉ h.kernel.held)
    (hsame : ∀ g i, 1 ≤ g → ¬(g = g₀ ∧ i = i₀) → recorded desc h' g i = recorded desc h g i)
    (hgone : ∀ fd', recorded desc h' g₀ i₀ = some fd' → fd' ≤ 0) (hconns : Clients h'.conns) :
    Attributed P desc h' := by
  have hfile : ∀ fd', fd' ≠ fd → h'.kernel.fileOf fd' = h.kernel.fileOf fd' := by
    intro fd' hne
    rcases hk with hk | ⟨hk, -⟩ <;> rw [hk, fileOf_close_ne hne]
    rfl
  have hs : h'.kernel.Sound := by
    rcases hk with hk | ⟨hk, -⟩ <;> rw [hk]
    · exact ha.sound.del.close
    · exact ha.sound.close
  -- no registration of the descriptor is left
  have hgone' : ∀ r ∈ h'.kernel.regs, OfKind P r → r ∈ h.kernel.regs ∧ r.fd ≠ fd := by
    intro r hr hg
    rcases hk with hk | ⟨hk, hheld⟩ <;> rw [hk] at hr
    · obtain ⟨hr', hnot⟩ := mem_regs_del.mp (mem_regs_of_close hr)
      refine ⟨hr', fun heq => hnot ⟨heq, ?_⟩⟩
      exact heq ▸ ha.live r hr' hg
    · have hr' := mem_regs_of_close hr
      refine ⟨hr', fun heq => ?_⟩
      have hlive := ha.live r hr' hg
      rw [heq] at hlive
      exact ha.sound.not_mem_regs_close hlive (hheld _ hlive) hr
  refine ha.shrink hs (fun r hr hg => ?_) (fun g i fd' hg hfd' hpos' => ?_) hconns
  · obtain ⟨hr', hne⟩ := hgone' r hr hg
    refine ⟨hr', hsame _ _ (Nat.le_of_succ_le hg.1) ?_, hfile _ hne⟩
    rintro ⟨hg', hi'⟩
    have hkeyed := ha.keyed r hr' hg
    rw [hg', hi', hfd] at hkeyed
    exact hne (Option.some.inj hkeyed).symm
  · have hplace : ¬(g = g₀ ∧ i = i₀) := by
      rintro ⟨rfl, rfl⟩
      exact absurd hpos' (Int.not_lt.mpr (hgone fd' hfd'))
    have hold := (hsame g i hg hplace).symm.trans hfd'
    refine ⟨hold, hfile fd' fun heq => hplace ?_⟩
    exact ha.single g i g₀ i₀ fd hg hg₀ (heq ▸ hold) hfd hpos

/-- A descriptor of an entry is closed. -/
theorem closedAt {g₀ i : ℕ} {d d' : D} {fd : ℤ} (hg₀ : 2 ≤ g₀) (hd : slot h i = some d)
    (hfd : desc d g₀ = some fd) (hpos : 0 < fd) (hk : h'.kernel = (h.kernel.del fd).close fd ∨
      h'.kernel = h.kernel.close fd ∧ ∀ f, h.kernel.fileOf fd = some f → f ∉ h.kernel.held)
    (hd' : slot h' i = some d') (hother : ∀ j, j ≠ i → slot h' j = slot h j)
    (hc : h'.conns = h.conns) (hsame : ∀ g, g ≠ g₀ → desc d' g = desc d g)
    (hgone : ∀ fd', desc d' g₀ = some fd' → fd' ≤ 0) : Attributed P desc h' := by
  have hg₁ : 1 ≤ g₀ := by omega
  have hrec : recorded desc h g₀ i = some fd := by
    rw [recorded_proc desc h hg₀, hd]
    exact hfd
  refine ha.closed hg₁ hrec hpos hk ?_ ?_ (hc ▸ ha.clients)
  · intro g j hg hplace
    rcases lt_or_ge g 2 with h1 | h2
    · obtain rfl : g = 1 := by omega
      rw [recorded_conn, recorded_conn, hc]
    · rw [recorded_proc _ _ h2, recorded_proc _ _ h2]
      by_cases hj : j = i
      · subst j
        rw [hd, hd']
        exact hsame g fun heq => hplace ⟨heq, rfl⟩
      · rw [hother j hj]
  · intro fd' hfd'
    rw [recorded_proc _ _ hg₀, hd'] at hfd'
    exact hgone fd' hfd'

/-- A descriptor is taken out of epoll, or others get or give up copies. -/
theorem unwatched {k : Kernel} (hs : k.Sound) (hregs : ∀ r ∈ k.regs, r ∈ h.kernel.regs)
    (hfile : ∀ fd, k.fileOf fd = h.kernel.fileOf fd) : Attributed P desc { h with kernel := k } :=
  ha.shrink hs (fun r hr _ => ⟨hregs r hr, rfl, hfile r.fd⟩)
    (fun _ _ fd _ hfd _ => ⟨hfd, hfile fd⟩) ha.clients

/-- **A recorded descriptor is registered** under the key that says where. -/
theorem watched {g i : ℕ} {fd : ℤ} (hi : i < 65536) (hfd : recorded desc h g i = some fd) :
    Attributed P desc (h.addEpollFd fd (pkey g i)) := by
  rw [Hub.addEpollFd]
  split
  · exact ha
  have hnew : ∀ r ∈ (h.kernel.add fd (pkey g i)).regs, r ∈ h.kernel.regs ∨
      (r.key = pkey g i ∧ r.fd = fd ∧ h.kernel.fileOf fd = some r.file) := by
    intro r hr
    refine (mem_regs_add.mp hr).imp_right ?_
    rintro ⟨hr', hf, -⟩
    exact ⟨congrArg Reg.key hr', congrArg Reg.fd hr', hf⟩
  refine ⟨ha.sound.add, fun r hr hg' => ?_, fun r hr hg' => ?_, fun g i fd hg₁ hfd hpos => ?_,
    ha.single, ha.clients⟩
  · rcases hnew r hr with hr' | ⟨hkey, hrfd, -⟩
    · exact ha.keyed r hr' hg'
    · rw [hkey, pkeyGroup_pkey hi, pkeyIndex_pkey hi, hrfd]
      exact hfd
  · rcases hnew r hr with hr' | ⟨-, hrfd, hf⟩
    · exact fileOf_add.trans (ha.live r hr' hg')
    · exact fileOf_add.trans (hrfd ▸ hf)
  · show ((h.kernel.add _ _).fileOf fd).isSome
    rw [fileOf_add]
    exact ha.opened g i fd hg₁ hfd hpos

/-- **A new entry**, with descriptors that have just been opened. -/
theorem entered {i : ℕ} {d : D} (hnone : slot h i = none) (hd : slot h' i = some d)
    (hsame : ∀ j, j ≠ i → slot h' j = slot h j) (hc : h'.conns = h.conns) (hs : h'.kernel.Sound)
    (hregs : h'.kernel.regs = h.kernel.regs)
    (hold : ∀ fd f, h.kernel.fileOf fd = some f → h'.kernel.fileOf fd = some f)
    (hnew : ∀ g fd, desc d g = some fd → 0 < fd →
      h.kernel.fileOf fd = none ∧ (h'.kernel.fileOf fd).isSome)
    (hone : ∀ g g' fd, desc d g = some fd → desc d g' = some fd → 0 < fd → g = g') :
    Attributed P desc h' := by
  have hplace : ∀ g j fd, 1 ≤ g → recorded desc h' g j = some fd → 0 < fd →
      recorded desc h g j = some fd ∨ (2 ≤ g ∧ j = i ∧ desc d g = some fd) := by
    intro g j fd hg hfd hpos
    rcases lt_or_ge g 2 with h1 | h2
    · obtain rfl : g = 1 := by omega
      rw [recorded_conn, hc] at hfd
      exact .inl ((recorded_conn desc h j).trans hfd)
    · rw [recorded_proc desc h' h2] at hfd
      by_cases hj : j = i
      · subst hj
        rw [hd] at hfd
        exact .inr ⟨h2, rfl, hfd⟩
      · rw [hsame j hj] at hfd
        exact .inl ((recorded_proc desc h h2 j).trans hfd)
  have hopen : ∀ g j fd, 1 ≤ g → recorded desc h g j = some fd → 0 < fd →
      ∃ f, h.kernel.fileOf fd = some f :=
    fun g j fd hg hfd hpos => isSome_iff_exists.mp (ha.opened g j fd hg hfd hpos)
  refine ⟨hs, fun r hr hg => ?_, fun r hr hg => ?_, fun g j fd hg hfd hpos => ?_, ?_,
    hc ▸ ha.clients⟩
  · rw [hregs] at hr
    have hkeyed := ha.keyed r hr hg
    rw [recorded_proc desc h hg.1] at hkeyed
    rw [recorded_proc desc h' hg.1, hsame]
    · exact hkeyed
    · intro heq
      rw [heq, hnone] at hkeyed
      cases hkeyed
  · rw [hregs] at hr
    exact hold _ _ (ha.live r hr hg)
  · rcases hplace g j fd hg hfd hpos with hfd | ⟨-, -, hfd⟩
    · obtain ⟨f, hf⟩ := hopen g j fd hg hfd hpos
      rw [hold fd f hf]
      rfl
    · exact (hnew g fd hfd hpos).2
  · intro g j g' j' fd hg hg' hfd hfd' hpos
    rcases hplace g j fd hg hfd hpos with hp | ⟨-, hj, hp⟩ <;>
      rcases hplace g' j' fd hg' hfd' hpos with hp' | ⟨-, hj', hp'⟩
    · exact ha.single g j g' j' fd hg hg' hp hp' hpos
    · obtain ⟨f, hf⟩ := hopen g j fd hg hp hpos
      rw [(hnew g' fd hp' hpos).1] at hf
      cases hf
    · obtain ⟨f, hf⟩ := hopen g' j' fd hg' hp' hpos
      rw [(hnew g fd hp hpos).1] at hf
      cases hf
    · exact ⟨hone g g' fd hp hp' hpos, hj.trans hj'.symm⟩

end

/-- At the start there is nothing to be attributed. -/
theorem boot {w : World D} (hb : Boot w) : Attributed P desc w.hub := by
  have hnone : ∀ g i, 1 ≤ g → recorded desc w.hub g i = none := by
    intro g i hg
    rw [recorded, hb.conns, slot, hb.procs]
    split <;> rfl
  have hgroup : ∀ r ∈ w.hub.kernel.regs, ¬OfKind P r := by
    intro r hr hg
    have := hg.1
    rw [hb.keyed r hr] at this
    exact absurd this (by decide)
  refine ⟨hb.sound, fun r hr hg => absurd hg (hgroup r hr), fun r hr hg => absurd hg (hgroup r hr),
    fun g i fd hg hfd => ?_, fun g i _ _ fd hg _ hfd => ?_, ?_, ?_⟩
  · rw [hnone g i hg] at hfd
    cases hfd
  · rw [hnone g i hg] at hfd
    cases hfd
  · rw [hb.conns]
    exact fun fd hfd => nomatch hfd
  · rw [hb.conns]
    exact Nat.zero_le _

/-! ### Connections -/

/-- Another connection, with a new descriptor. -/
theorem connected (ha : Attributed P desc h) {c : ℕ} {fd : ℤ} (hfree : h.free fd)
    (hp : h'.procs = h.procs) (hk : h'.kernel = h.kernel.openFile fd)
    (hnew : h'.conns[c]? = some fd)
    (hsame : ∀ c', c' ≠ c → h'.conns[c']? = h.conns[c']?) (hconns : Clients h'.conns) :
    Attributed P desc h' := by
  have hslot : ∀ i, slot h' i = slot h i := fun i => by rw [slot, hp, slot]
  have hfile : ∀ fd' f, h.kernel.fileOf fd' = some f →
      fd' ≠ fd ∧ h'.kernel.fileOf fd' = some f := by
    intro fd' f hf
    have hne : fd' ≠ fd := by
      rintro rfl
      rw [hfree.2] at hf
      cases hf
    exact ⟨hne, by rw [hk, fileOf_openFile_ne hne, hf]⟩
  have hplace : ∀ g i fd', 1 ≤ g → recorded desc h' g i = some fd' →
      recorded desc h g i = some fd' ∨ (g = 1 ∧ i = c ∧ fd' = fd) := by
    intro g i fd' hg hfd'
    rcases lt_or_ge g 2 with h1 | h2
    · obtain rfl : g = 1 := by omega
      rw [recorded_conn] at hfd'
      by_cases hi : i = c
      · rw [hi, hnew] at hfd'
        exact .inr ⟨rfl, hi, (Option.some.inj hfd').symm⟩
      · rw [hsame i hi] at hfd'
        exact .inl ((recorded_conn desc h i).trans hfd')
    · rw [recorded_proc desc h' h2, hslot] at hfd'
      exact .inl ((recorded_proc desc h h2 i).trans hfd')
  have hopen : ∀ g i fd', 1 ≤ g → recorded desc h g i = some fd' → 0 < fd' →
      fd' ≠ fd ∧ (h'.kernel.fileOf fd').isSome := by
    intro g i fd' hg hfd' hpos
    obtain ⟨f, hf⟩ := isSome_iff_exists.mp (ha.opened g i fd' hg hfd' hpos)
    obtain ⟨hne, hf'⟩ := hfile fd' f hf
    exact ⟨hne, by rw [hf']; rfl⟩
  have hregs : h'.kernel.regs = h.kernel.regs := by rw [hk]; rfl
  refine ⟨hk ▸ ha.sound.openFile, fun r hr hg => ?_, fun r hr hg => ?_,
    fun g i fd' hg hfd' hpos => ?_, ?_, hconns⟩
  · rw [recorded_proc desc h' hg.1, hslot, ← recorded_proc desc h hg.1]
    exact ha.keyed r (hregs ▸ hr) hg
  · exact (hfile _ _ (ha.live r (hregs ▸ hr) hg)).2
  · rcases hplace g i fd' hg hfd' with hp | ⟨-, -, rfl⟩
    · exact (hopen g i fd' hg hp hpos).2
    · rw [hk, fileOf_openFile_self]
      rfl
  · intro g i g' i' fd' hg hg' hfd hfd' hpos
    rcases hplace g i fd' hg hfd with hp | ⟨hg₁, hi, heq⟩ <;>
      rcases hplace g' i' fd' hg' hfd' with hp' | ⟨hg₁', hi', heq'⟩
    · exact ha.single g i g' i' fd' hg hg' hp hp' hpos
    · exact absurd heq' (hopen g i fd' hg hp hpos).1
    · exact absurd heq (hopen g' i' fd' hg' hp' hpos).1
    · exact ⟨hg₁.trans hg₁'.symm, hi.trans hi'.symm⟩

lemma checkSocket (ha : Attributed P desc h) {fd : ℤ} (hfree : h.free fd) :
    Attributed P desc (h.checkSocket fd) := by
  simp only [Hub.checkSocket]
  split
  · -- there is no room for it, and it is closed again
    have hother : ∀ fd', fd' ≠ fd →
        ((h.kernel.openFile fd).close fd).fileOf fd' = h.kernel.fileOf fd' := by
      intro fd' hne
      rw [fileOf_close_ne hne, fileOf_openFile_ne hne]
    have hne : ∀ fd', (h.kernel.fileOf fd').isSome → fd' ≠ fd := by
      rintro fd' hf rfl
      rw [hfree.2] at hf
      cases hf
    refine ha.shrink ha.sound.openFile.close (fun r hr hg => ?_) (fun g i fd' hg hfd' hpos => ?_)
      ha.clients
    · have hr' : r ∈ (h.kernel.openFile fd).regs := mem_regs_of_close hr
      exact ⟨hr', rfl, hother _ (hne _ (by rw [ha.live r hr' hg]; rfl))⟩
    · exact ⟨hfd', hother _ (hne _ (ha.opened g i fd' hg hfd' hpos))⟩
  · rename_i c h' hg
    obtain ⟨hlt, hnew, hsame, hconns⟩ := grabConnSlot_spec hg ha.clients hfree.1
    have heq := grabConnSlot_eq hg
    refine (ha.connected hfree ?_ ?_ hnew hsame hconns).watched hlt ?_
    · rw [heq]
    · rw [heq]
    · exact (recorded_conn desc h' c).trans hnew

/-- The descriptor of a connection is closed. -/
theorem closeConnFd (ha : Attributed P desc h) {c : ℕ} {fd : ℤ} (hc : h.conns[c]? = some fd)
    (hfd : 0 ≤ fd) : Attributed P desc (h.closeConnFd c fd) := by
  have hpos : 0 < fd := by
    have := ha.clients.1 fd (mem_of_getElem? hc)
    omega
  obtain ⟨hlt, -⟩ := List.getElem?_eq_some_iff.mp hc
  refine ha.closed (Nat.le_refl 1) ((recorded_conn desc h c).trans hc) hpos (.inl rfl) ?_ ?_ ?_
  · intro g i hg hplace
    rcases Nat.lt_or_ge g 2 with h1 | h2
    · obtain rfl : g = 1 := by omega
      rw [recorded_conn, recorded_conn]
      exact getElem?_set_ne fun heq => hplace ⟨rfl, heq.symm⟩
    · rw [recorded_proc _ _ h2, recorded_proc _ _ h2]
      rfl
  · intro fd' hfd'
    rw [recorded_conn] at hfd'
    have : (h.closeConnFd c fd).conns[c]? = some (-1) := getElem?_set_self hlt
    rw [this] at hfd'
    cases hfd'
    decide
  · refine ⟨fun fd' hfd' => ?_, ?_⟩
    · rcases mem_or_eq_of_mem_set hfd' with hmem | rfl
      · exact ha.clients.1 fd' hmem
      · decide
    · show (h.conns.set c (-1)).length ≤ NCONNS
      rw [length_set]
      exact ha.clients.2

lemma updateNconns (ha : Attributed P desc h) : Attributed P desc h.updateNconns := by
  have hpre : h.updateNconns.conns <+: h.conns := rdropWhile_prefix _ _
  refine ha.shrink ha.sound (fun r hr hg => ⟨hr, ?_, rfl⟩) (fun g i fd hg hfd _ => ⟨?_, rfl⟩) ?_
  · rw [recorded_proc _ _ hg.1, recorded_proc _ _ hg.1]
    rfl
  · rcases Nat.lt_or_ge g 2 with h1 | h2
    · obtain rfl : g = 1 := by omega
      rw [recorded_conn] at hfd ⊢
      obtain ⟨rest, hrest⟩ := hpre
      rw [← hrest, List.getElem?_append_left (List.getElem?_eq_some_iff.mp hfd).choose, hfd]
    · rwa [recorded_proc _ _ h2] at hfd ⊢
  · exact ⟨fun fd hfd => ha.clients.1 fd (hpre.subset hfd), hpre.length_le.trans ha.clients.2⟩

end Attributed

/-! ### Entries -/

lemma slot_of_procs (hp : h'.procs = h.procs) (i : ℕ) : slot h' i = slot h i := by
  rw [slot, hp, slot]

/-- Counting again drops only entries that are not in use. -/
theorem slot_updateProcCounts (h : Hub D) (i : ℕ) : slot h.updateProcCounts i = slot h i := by
  have hsplit : trimmed h.procs ++ h.procs.rtakeWhile (fun pc => !pc.inUse) = h.procs :=
    rdropWhile_append_rtakeWhile
  rw [slot, slot, procs_updateProcCounts]
  rcases lt_or_ge i (trimmed h.procs).length with hlt | hge
  · conv_rhs => rw [← hsplit, getElem?_append_left hlt]
  · rw [getElem?_eq_none hge]
    conv_rhs => rw [← hsplit, getElem?_append_right hge]
    cases hpc : (h.procs.rtakeWhile fun pc => !pc.inUse)[i - (trimmed h.procs).length]? with
    | none => rfl
    | some pc =>
      have hmem := mem_of_getElem? hpc
      have hno := mem_rtakeWhile_imp hmem
      rw [filter_some_neg (by simpa using hno)]
      rfl

variable {pc : Proc D} {j : ℕ} {batch : List Exit}

lemma slot_of_getElem (hi : h.procs[i]? = some pc) :
    slot h i = if pc.inUse then some pc.fds else none := by
  rw [slot, hi]
  cases hu : pc.inUse <;> simp [Option.filter, hu]

/-- The entry behind what is recorded. -/
theorem slot_eq_some {d : D} :
    slot h i = some d ↔ ∃ pc, h.procs[i]? = some pc ∧ pc.inUse = true ∧ pc.fds = d := by
  rw [slot, map_eq_some_iff]
  constructor
  · rintro ⟨pc, hpc, hd⟩
    obtain ⟨hpc, huse⟩ := filter_eq_some_iff.mp hpc
    exact ⟨pc, hpc, huse, hd⟩
  · rintro ⟨pc, hpc, huse, hd⟩
    exact ⟨pc, filter_eq_some_iff.mpr ⟨hpc, huse⟩, hd⟩

lemma slot_set (hp : h'.procs = h.procs.set i pc) (hi : i < h.procs.length) :
    slot h' j = if j = i then (if pc.inUse then some pc.fds else none) else slot h j := by
  split
  · subst j
    exact slot_of_getElem (by rw [hp, getElem?_set_self hi])
  · rename_i hj
    rw [slot, hp, getElem?_set_ne (Ne.symm hj), slot]

/-- An entry is changed in other things than its descriptors. -/
theorem slot_setProc_same [Zero D] {pc' : Proc D} (hi : h.procs[i]? = some pc)
    (hsame : pc'.xid = pc.xid ∧ pc'.fds = pc.fds) (j : ℕ) :
    slot (h.setProc i pc') j = slot h j := by
  have hset : (h.setProc i pc').procs = h.procs.set i pc' := rfl
  rw [slot_set hset (List.getElem?_eq_some_iff.mp hi).choose]
  split
  · subst j
    rw [slot_of_getElem hi, Proc.inUse, hsame.1, hsame.2, Proc.inUse]
  · rfl

lemma not_registered_addEpollFd {fd : ℤ} (hi : i < 65536) (hj : j ≠ i)
    (hno : registered P h j = false) : registered P (h.addEpollFd fd (pkey g i)) j = false := by
  refine Bool.eq_false_iff.mpr fun hreg => ?_
  obtain ⟨r, hr, hg, hrj⟩ := registered_iff.mp hreg
  rw [Hub.addEpollFd] at hr
  split at hr
  · rw [registered_iff.mpr ⟨r, hr, hg, hrj⟩] at hno
    cases hno
  · rcases mem_regs_add.mp hr with hr | ⟨hr, -⟩
    · rw [registered_iff.mpr ⟨r, hr, hg, hrj⟩] at hno
      cases hno
    · have hkey : r.key = pkey g i := congrArg Reg.key hr
      rw [hkey, pkeyIndex_pkey hi] at hrj
      exact hj hrj.symm

/-- Holds of every entry, with its number. -/
def Every (h : Hub D) (P : ℕ → Proc D → Prop) : Prop := ∀ p ∈ h.procs.zipIdx, P p.2 p.1

instance (h : Hub D) (P : ℕ → Proc D → Prop) [∀ i pc, Decidable (P i pc)] : Decidable (Every h P) :=
  inferInstanceAs (Decidable (∀ p ∈ h.procs.zipIdx, P p.2 p.1))

lemma every_iff {P : ℕ → Proc D → Prop} : Every h P ↔ ∀ i pc, h.procs[i]? = some pc → P i pc := by
  constructor
  · intro hall i pc hpc
    exact hall (pc, i) (mem_zipIdx_iff_getElem?.mpr hpc)
  · rintro hall ⟨pc, i⟩ hmem
    exact hall i pc (mem_zipIdx_iff_getElem?.mp hmem)

/-! ### Entries kept or wiped -/

/-- Every entry that is left has its number and its descriptors, or is wiped. -/
def Reduced [Zero D] (h h' : Hub D) : Prop :=
  h'.procs.length ≤ h.procs.length ∧ ∀ (j : ℕ) (pc' : Proc D), h'.procs[j]? = some pc' →
    (pc'.xid = 0 ∧ pc'.fds = 0) ∨ ∃ pc, h.procs[j]? = some pc ∧ pc'.xid = pc.xid ∧ pc'.fds = pc.fds

namespace Reduced

variable [Zero D] {h'' : Hub D} {i : ℕ}

lemma of_procs (hp : h'.procs = h.procs) : Reduced h h' :=
  ⟨by rw [hp], fun j pc hj => .inr ⟨pc, hp ▸ hj, rfl, rfl⟩⟩

lemma trans (h₁ : Reduced h h') (h₂ : Reduced h' h'') : Reduced h h'' := by
  refine ⟨h₂.1.trans h₁.1, fun j pc'' hj => ?_⟩
  rcases h₂.2 j pc'' hj with hzero | ⟨pc', hj', hx, hfds⟩
  · exact .inl hzero
  · rcases h₁.2 j pc' hj' with ⟨hx', hfds'⟩ | ⟨pc, hpc, hx', hfds'⟩
    · exact .inl ⟨hx.trans hx', hfds.trans hfds'⟩
    · exact .inr ⟨pc, hpc, hx.trans hx', hfds.trans hfds'⟩

lemma setProc {pc' : Proc D} (hpc' : (pc'.xid = 0 ∧ pc'.fds = 0) ∨
      ∃ pc, h.procs[i]? = some pc ∧ pc'.xid = pc.xid ∧ pc'.fds = pc.fds) :
    Reduced h (h.setProc i pc') := by
  refine ⟨le_of_eq (length_set ..), fun j pc'' hj => ?_⟩
  have hj : (h.procs.set i pc')[j]? = some pc'' := hj
  by_cases hji : j = i
  · subst j
    rw [getElem?_set] at hj
    obtain ⟨-, heq⟩ := ite_none_right_eq_some.mp ((if_pos rfl).symm.trans hj)
    cases heq
    exact hpc'
  · rw [getElem?_set_ne (Ne.symm hji)] at hj
    exact .inr ⟨pc'', hj, rfl, rfl⟩

lemma wipeProc (h : Hub D) (i : ℕ) : Reduced h (h.wipeProc i) := setProc (.inl ⟨rfl, rfl⟩)

lemma updateProcCounts (h : Hub D) : Reduced h h.updateProcCounts := by
  have hpre : h.updateProcCounts.procs <+: h.procs := by
    rw [procs_updateProcCounts]
    exact rdropWhile_prefix _ _
  refine ⟨hpre.length_le, fun j pc hj => .inr ⟨pc, ?_, rfl, rfl⟩⟩
  obtain ⟨rest, hrest⟩ := hpre
  rw [← hrest, List.getElem?_append_left (List.getElem?_eq_some_iff.mp hj).choose, hj]

lemma endProc (h : Hub D) (i : ℕ) (status : ℤ) : Reduced h (h.endProc i status) := by
  rw [Hub.endProc]
  split
  · exact of_procs rfl
  · rename_i pc hpc
    refine setProc ?_
    split
    · exact .inl ⟨rfl, rfl⟩
    · exact .inr ⟨pc, hpc, rfl, rfl⟩

lemma flushProc (h : Hub D) (i : ℕ) : Reduced h (h.flushProc i) := by
  rw [Hub.flushProc]
  split
  · exact of_procs rfl
  · rename_i pc hpc
    split
    · exact (wipeProc h i).trans (updateProcCounts _)
    · exact setProc (.inr ⟨pc, hpc, rfl, rfl⟩)

lemma wipeStaleEntries (h : Hub D) (i : ℕ) : Reduced h (h.wipeStaleEntries i) := by
  refine ⟨le_of_eq length_mapIdx, fun j pc' hj => ?_⟩
  obtain ⟨pc, hpc, heq⟩ := map_eq_some_iff.mp (getElem?_mapIdx.symm.trans hj)
  split at heq
  · exact .inl (heq ▸ ⟨rfl, rfl⟩)
  · exact .inr ⟨pc, hpc, heq ▸ rfl, heq ▸ rfl⟩

end Reduced

/-- An entry of a process that ends well and has written nothing. -/
def quiet (batch : List Exit) (pc : Proc D) : Bool :=
  !pc.buf && batch.any fun e => e.pid = pc.pid && e.status = 0

/-- An old entry of a name. -/
def stale (name : List UInt8) (pc : Proc D) : Bool := pc.xid ≠ 0 && pc.pid ≤ 0 && pc.name = name

/-- Epoll does not watch any of certain entries. -/
def Unwatched (P : ℕ → Bool) (h : Hub D) (p : Proc D → Bool) : Prop :=
  Every h fun i pc => p pc = true → registered P h i = false
deriving Decidable

lemma Unwatched.get {p : Proc D → Bool} (hu : Unwatched P h p)
    (hi : h.procs[i]? = some pc) (hp : p pc = true) : registered P h i = false :=
  every_iff.mp hu i pc hi hp

/-- One that is not quiet with more exits to come is not with fewer. -/
theorem quiet_cons {e : Exit} (hq : quiet batch pc = true) : quiet (e :: batch) pc = true := by
  rw [quiet, Bool.and_eq_true_iff] at hq ⊢
  exact ⟨hq.1, by rw [any_cons, hq.2, Bool.or_true]⟩

lemma not_quiet (hp : pc.pid ≤ 0) : quiet batch pc = false := by
  rw [quiet, Bool.and_eq_false_iff]
  refine .inr (any_eq_false.mpr fun e _ => ?_)
  have hne : e.pid ≠ pc.pid := fun heq => absurd (heq ▸ e.positive) (Int.not_lt.mpr hp)
  simp [hne]

/-- The entry of the first exit is quiet if it is wiped. -/
theorem quiet_first {e : Exit} (hp : pc.pid = e.pid) (hs : e.status = 0) (hb : pc.buf = false) :
    quiet (e :: batch) pc = true := by
  simp [quiet, hp, hs, hb]

/-- The entries after an exit: that of the process ended has none any more. -/
theorem getElem?_endProc [Zero D] {status : ℤ}
    (hj : (h.endProc i status).procs[j]? = some pc) : h.procs[j]? = some pc ∨ pc.pid ≤ 0 := by
  cases hi : h.procs[i]? with
  | none =>
    simp only [Hub.endProc, hi] at hj
    exact .inl hj
  | some old =>
    obtain ⟨pc', hle, heq⟩ := endProc_eq hi status
    rw [heq] at hj
    have hj : (h.procs.set i pc')[j]? = some pc := hj
    by_cases hji : j = i
    · rw [hji, List.getElem?_set_self (List.getElem?_eq_some_iff.mp hi).choose] at hj
      exact .inr (Option.some.inj hj ▸ hle)
    · rw [getElem?_set_ne (Ne.symm hji)] at hj
      exact .inl hj

lemma kernel_endProc [Zero D] (h : Hub D) (i : ℕ) (status : ℤ) :
    (h.endProc i status).kernel = h.kernel := by
  rw [Hub.endProc]
  split <;> rfl

/-- What is not watched when a process ends is not watched after. -/
theorem Unwatched.endProc [Zero D] {e : Exit} {status : ℤ}
    (hu : Unwatched P h (quiet (e :: batch))) : Unwatched P (h.endProc i status) (quiet batch) := by
  refine every_iff.mpr fun j pc hj hq => ?_
  rw [registered, kernel_endProc]
  rcases getElem?_endProc hj with hold | hdead
  · exact hu.get hold (quiet_cons hq)
  · rw [not_quiet hdead] at hq
    cases hq

lemma Unwatched.grabProc [Zero D] {p : Proc D → Bool} (hu : Unwatched P h p) (hp : p 0 = false)
    {brk : Bool} (hg : h.grabProc brk = some (i, h')) : Unwatched P h' p := by
  obtain ⟨heq, -, hzero, -, hsame⟩ := grabProc_spec hg
  refine every_iff.mpr fun j pc hj hpc => ?_
  have hreg : registered P h' j = registered P h j := by rw [heq]; rfl
  rw [hreg]
  by_cases hji : j = i
  · rw [hji, hzero] at hj
    rw [← Option.some.inj hj, hp] at hpc
    cases hpc
  · rw [hsame j hji] at hj
    exact every_iff.mp hu j pc hj hpc

namespace Attributed

variable [Zero D] {i : ℕ}

/-- An entry that epoll does not watch is wiped. -/
theorem wiped (ha : Attributed P desc h) (hi : registered P h i = false) :
    Attributed P desc (h.wipeProc i) := by
  refine ha.thin rfl rfl fun j => ?_
  rcases lt_or_ge i h.procs.length with hlt | hge
  · have hset : (h.wipeProc i).procs = h.procs.set i 0 := rfl
    rw [slot_set hset hlt]
    split
    · subst j
      exact .inr ⟨rfl, hi⟩
    · exact .inl rfl
  · have hsame : (h.wipeProc i).procs = h.procs := set_eq_of_length_le hge
    exact .inl (slot_of_procs hsame j)

omit [Zero D] in
/-- The counts are made anew. -/
theorem recounted (ha : Attributed P desc h) : Attributed P desc h.updateProcCounts :=
  ha.thin rfl rfl fun i => .inl (slot_updateProcCounts h i)

omit [Zero D] in
lemma pickUnusedXid (ha : Attributed P desc h) : Attributed P desc h.pickUnusedXid.2 := by
  rw [Hub.pickUnusedXid]
  split
  · exact ha
  · exact ha.thin rfl rfl fun _ => .inl rfl

lemma grabProc (ha : Attributed P desc h) {brk : Bool} (hg : h.grabProc brk = some (i, h')) :
    Attributed P desc h' := by
  obtain ⟨heq, -, hzero, hempty, hsame⟩ := grabProc_spec hg
  refine ha.thin (by rw [heq]) (by rw [heq]) fun j => .inl ?_
  by_cases hj : j = i
  · subst j
    rw [slot_of_getElem hzero]
    cases hpc : h.procs[i]? with
    | none => rw [slot, hpc]; rfl
    | some pc =>
      have hno : pc.inUse = false := by simp [Proc.inUse, hempty pc hpc]
      rw [slot_of_getElem hpc, hno]
      rfl
  · rw [slot, slot, hsame j hj]

lemma flushProc (ha : Attributed P desc h)
    (hi : ∀ pc, h.procs[i]? = some pc → pc.pid ≤ 0 → registered P h i = false) :
    Attributed P desc (h.flushProc i) := by
  rw [Hub.flushProc]
  split
  · exact ha
  · rename_i pc hpc
    split
    · exact (ha.wiped (hi pc hpc ‹_›)).recounted
    · refine ha.thin rfl rfl fun j => .inl ?_
      refine slot_setProc_same hpc ?_ j
      exact ⟨rfl, rfl⟩

lemma endProc (ha : Attributed P desc h) {status : ℤ}
    (hi : ∀ pc, h.procs[i]? = some pc → status = 0 → pc.buf = false → registered P h i = false) :
    Attributed P desc (h.endProc i status) := by
  rw [Hub.endProc]
  split
  · exact ha
  · rename_i pc hpc
    split
    · rename_i hs
      exact ha.wiped (hi pc hpc hs.1 (by simpa using hs.2))
    · refine ha.thin rfl rfl fun j => .inl ?_
      refine slot_setProc_same hpc ?_ j
      exact ⟨rfl, rfl⟩

lemma wipeStaleEntries (ha : Attributed P desc h) {pc : Proc D} (hi : h.procs[i]? = some pc)
    (hstale : ∀ j pc', h.procs[j]? = some pc' → j ≠ i → stale pc.name pc' = true →
      registered P h j = false) : Attributed P desc (h.wipeStaleEntries i) := by
  have hname : (h.procs[i]?.map Proc.name).getD [] = pc.name := by rw [hi]; rfl
  refine ha.thin rfl rfl fun j => ?_
  cases hj : h.procs[j]? with
  | none =>
    refine .inl ?_
    rw [slot, slot, hj]
    show ((h.procs.mapIdx _)[j]?.filter _).map _ = _
    rw [getElem?_mapIdx, hj]
    rfl
  | some pc' =>
    have hget : (h.wipeStaleEntries i).procs[j]? = some
        (if j ≠ i ∧ pc'.xid ≠ 0 ∧ pc'.pid ≤ 0 ∧ pc'.name = pc.name then 0 else pc') := by
      show (h.procs.mapIdx _)[j]? = _
      rw [getElem?_mapIdx, hj, hname]
      rfl
    split at hget
    · rename_i hw
      refine .inr ⟨?_, hstale j pc' hj hw.1 ?_⟩
      · rw [slot_of_getElem hget]
        rfl
      · simp [stale, hw.2.1, hw.2.2.1, hw.2.2.2]
    · exact .inl ((slot_of_getElem hget).trans (slot_of_getElem hj).symm)

/-- A descriptor of a new process is registered, and old entries of its name go. -/
theorem started (ha : Attributed P desc h) {g : ℕ} {pc : Proc D} {fd : ℤ}
    (hi : h.procs[i]? = some pc) (hx : pc.xid ≠ 0) (hlt : i < 65536) (hg : 2 ≤ g)
    (hfd : desc pc.fds g = some fd)
    (hstale : ∀ j pc', h.procs[j]? = some pc' → j ≠ i → stale pc.name pc' = true →
      registered P h j = false) :
    Attributed P desc ((h.addEpollFd fd (pkey g i)).wipeStaleEntries i).updateProcCounts := by
  have hrec : recorded desc h g i = some fd := by
    have hinUse : pc.inUse = true := by simpa [Proc.inUse] using hx
    rw [recorded_proc desc h hg, slot_of_getElem hi, if_pos hinUse]
    exact hfd
  have hi' : (h.addEpollFd fd (pkey g i)).procs[i]? = some pc := by rw [procs_addEpollFd, hi]
  refine ((ha.watched hlt hrec).wipeStaleEntries hi' ?_).recounted
  intro j pc' hj hne hs
  rw [procs_addEpollFd] at hj
  exact not_registered_addEpollFd hlt hne (hstale j pc' hj hne hs)

/-- A free entry is named, and a process is started in it. -/
theorem spawned {hf : Hub D} {g : ℕ} {pc named : Proc D} {fd : ℤ} (ha : Attributed P desc hf)
    (hi : i < h.procs.length) (hprocs : hf.procs = (h.setProc i named).procs.set i pc)
    (hregs : hf.kernel.regs = h.kernel.regs) (hx : pc.xid ≠ 0) (hlt : i < 65536) (hg : 2 ≤ g)
    (hfd : desc pc.fds g = some fd) (hstale : Unwatched P h (stale pc.name)) :
    Attributed P desc ((hf.addEpollFd fd (pkey g i)).wipeStaleEntries i).updateProcCounts := by
  have hpc : hf.procs[i]? = some pc := by
    rw [hprocs]
    exact List.getElem?_set_self ((List.length_set ..).symm ▸ hi)
  refine ha.started hpc hx hlt hg hfd fun j pc' hj hne hs => ?_
  rw [hprocs, List.getElem?_set_ne hne.symm] at hj
  have hj' : h.procs[j]? = some pc' := (List.getElem?_set_ne hne.symm).symm.trans hj
  rw [registered, hregs]
  exact hstale.get hj' hs

/-- A free entry is named, and wiped again. -/
theorem unnamed (ha : Attributed P desc h) (hi : h.procs[i]? = some 0) (named : Proc D) :
    Attributed P desc ((h.setProc i named).wipeProc i) := by
  have hlen := (List.getElem?_eq_some_iff.mp hi).choose
  have hlen' : i < (h.setProc i named).procs.length := (List.length_set ..).symm ▸ hlen
  refine ha.thin rfl rfl fun j => .inl ((slot_set rfl hlen').trans ?_)
  split
  · subst j
    exact (slot_of_getElem hi).symm
  · exact (slot_set rfl hlen).trans (if_neg ‹_›)

end Attributed

end Minibase.Hubs
