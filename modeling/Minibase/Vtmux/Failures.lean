import Minibase.Vtmux.Requests

/-!
# Switches of vtmux that fail

When `activate`, `spawn` or `show_greeter` fails, the session that is shown should have its DRM
devices, and have been told last that it is active; the greeter, if there is said to be one, should
be there; and no slot should be left with something in it (`Vtmux.Mux.LeavesUsable`). But a switch
gives up at once where the lock cannot be taken off or put back (`Vtmux.Mux.Cut`), and the greeter
is said to be where it is about to be started. There are no other ways in which this fails
(`Vtmux.Mux.leavesUsable_iff`).
-/

namespace Minibase.Vtmux

open List Option

/-- What a session is told. -/
inductive Notice
  | activate
  | deactivate
deriving DecidableEq

/-- What each session was told last. -/
abbrev Told := ℕ → Option Notice

namespace Mux

variable {m m' : Mux} {told : Told} {tty : ℤ} {sys : Sys} {i k : ℕ}

/-! ### What is told -/

/-- `send_notification`, to a session that has a pipe. -/
def notify (m : Mux) (told : Told) (tty : ℤ) (n : Notice) : Told :=
  match m.findTermByTty tty with
  | some i => if 0 < (m.term i).ctlfd then Function.update told (m.term i).session
    (some n) else told
  | none => told

/-- What `activate` tells: `notify_deactivated` at the end of `disengage`, `notify_activated` at
that of `engage`. -/
def activateTold (m : Mux) (told : Told) (tty : ℤ) (sys : Sys) : Told :=
  if m.activetty = tty then told
  else
    let told := m.notify told m.activetty .deactivate
    match switchLoop tty (sys.tries tty) 7 0 with
    | .inl _ => told
    | .inr (_, ret) => m.notify told ret .activate

/-- What `spawn` tells. -/
def spawnTold (m : Mux) (told : Told) (tty : ℤ) (sys : Sys) : Told :=
  let old := m.activetty
  match sys.access with
  | some _ => told
  | none =>
    match grabSlot Term.nonzero NTERMS {} m.terms with
    | none => told
    | some (i, terms) =>
      let m := { m with terms := terms }
      let told := m.activateTold told tty sys
      match m.activate tty sys with
      | (ret, m) =>
        if ret < 0 then told
        else
          match m.startCmdOn i tty sys with
          | (ret, m) => if ret = 0 then told else m.activateTold told old sys

/-- What `switchto` tells. -/
def switchtoTold (m : Mux) (told : Told) (tty : ℤ) (sys : Sys) : Told :=
  if tty ≤ 0 then told
  else if tty = m.activetty then told
  else
    let m := { m with switchlock := false }
    if (m.findTermByTty tty).isSome then m.activateTold told tty sys
    else if m.pinned tty then m.spawnTold told tty sys
    else told

/-- What `show_greeter` tells. -/
def showGreeterTold (m : Mux) (told : Told) (sys : Sys) : Told :=
  let m := if m.activetty ≠ m.greetertty then { m with lastusertty := m.activetty } else m
  if m.greetertty ≠ 0 then m.switchtoTold told m.greetertty sys
  else
    let tty := m.queryGreeterTty sys
    if tty < 0 then told else { m with greetertty := tty }.spawnTold told tty sys

/-! ### What should be left behind -/

/-- What may fail. -/
inductive Call
  | activate (tty : ℤ)
  | spawn (tty : ℤ)
  | showGreeter

def Call.run (m : Mux) (sys : Sys) : Call → ℤ × Mux
  | .activate tty => m.activate tty sys
  | .spawn tty => m.spawn tty sys
  | .showGreeter => m.showGreeter sys

def Call.tells (m : Mux) (told : Told) (sys : Sys) : Call → Told
  | .activate tty => m.activateTold told tty sys
  | .spawn tty => m.spawnTold told tty sys
  | .showGreeter => m.showGreeterTold told sys

/-- A device that has been opened is at a descriptor. -/
def At (m : Mux) (fd : ℤ) (k : ℕ) : Prop := ∃ s, m.use fd = some (.dev s k)

/-- A device in the table is a DRM device of a terminal. -/
def Drm (m : Mux) (tty : ℤ) (md : Mdev) : Prop :=
  md ∈ m.mdevs ∧ md.tty = tty ∧ 0 < md.fd ∧ major md.dev = DRI_MAJOR

/-- **A terminal has its DRM devices**: what is at their descriptors, if it is one, is enabled. -/
def Engaged (m : Mux) (tty : ℤ) : Prop :=
  ∀ md, m.Drm tty md → ∀ (k : ℕ) (f : File), m.At md.fd k → m.files[k]? = some f →
    major f.dev = DRI_MAJOR →
    f.enabled = true

/-- The session of a terminal, if it can be told anything. -/
def Piped (m : Mux) (tty : ℤ) (i : ℕ) : Prop := m.findTermByTty tty = some i ∧ 0 < (m.term i).ctlfd

/-- The session that is shown has its devices, and the last it was told, if it was told anything, is
that it is active. -/
structure Shown (m : Mux) (told : Told) : Prop where
  engaged : m.Engaged m.activetty
  told : ∀ i, m.Piped m.activetty i → ∀ n, told (m.term i).session = some n → n = .activate

/-- The greeter is there, if there is said to be one. -/
def Greeted (m : Mux) : Prop := m.greetertty ≠ 0 → (m.findTermByTty m.greetertty).isSome = true

/-- What is in use in the slots of terminals is the same. -/
def SameSlots (m m' : Mux) : Prop :=
  ∀ i, (m.term i).nonzero = true ∨ (m'.term i).nonzero = true → m'.term i = m.term i

/-- **What a call leaves behind can be used.** -/
structure LeavesUsable (m : Mux) (told : Told) (c : Call) (sys : Sys) : Prop where
  shown : (c.run m sys).2.Shown (c.tells m told sys)
  greeted : (c.run m sys).2.Greeted
  slots : m.SameSlots (c.run m sys).2

/-! ### Devices that are disabled and enabled -/

/-- It is a DRM device that has been opened. -/
def IsDrm (m : Mux) (k : ℕ) : Prop := ∃ f, m.files[k]? = some f ∧ major f.dev = DRI_MAJOR

/-- It is enabled. -/
def Lit (m : Mux) (k : ℕ) : Prop := ∃ f, m.files[k]? = some f ∧ f.enabled = true

lemma engaged_iff : m.Engaged tty ↔ ∀ md, m.Drm tty md → ∀ k, m.At md.fd k → m.IsDrm k →
    m.Lit k := by
  refine ⟨fun h md hmd k hat ⟨f, hf, hdri⟩ => ⟨f, hf, h md hmd k f hat hf hdri⟩,
    fun h md hmd k f hat hf hdri => ?_⟩
  obtain ⟨f', hf', hon⟩ := h md hmd k hat ⟨f, hf, hdri⟩
  cases hf.symm.trans hf'
  exact hon

/-- What an attempt to enable or disable does: nothing to the kind of a device, and nothing to
others. -/
theorem setFile_lit (m : Mux) (fd : ℤ) (maj : ℕ) (enabled : Bool) (k : ℕ) :
    ((m.setFile fd maj enabled).IsDrm k ↔ m.IsDrm k) ∧ (m.IsDrm k →
      (m.At fd k ∧ maj = DRI_MAJOR → ((m.setFile fd maj enabled).Lit k ↔ enabled = true)) ∧
      (¬(m.At fd k ∧ maj = DRI_MAJOR) → ((m.setFile fd maj enabled).Lit k ↔ m.Lit k))) := by
  by_cases hat : m.At fd k
  · have hfiles : (m.setFile fd maj enabled).files[k]? =
        (m.files[k]?).map fun f => if major f.dev = maj then
          { f with enabled := enabled } else f := by
      obtain ⟨s, huse⟩ := hat
      unfold setFile
      rw [huse]
      exact getElem?_modify_eq ..
    simp only [IsDrm, Lit, hfiles]
    rcases m.files[k]? with _ | f
    · exact ⟨Iff.rfl, fun ⟨_, h, _⟩ => nomatch h⟩
    · simp only [map_some, Option.some.injEq, exists_eq_left', hat, true_and]
      refine ⟨by split_ifs <;> rfl, fun hdri => ⟨fun hmaj => ?_, fun hmaj => ?_⟩⟩
      · rw [if_pos (hdri.trans hmaj.symm)]
      · rw [if_neg fun h => hmaj (h.symm.trans hdri)]
  · have hfiles : (m.setFile fd maj enabled).files[k]? = m.files[k]? := by
      unfold setFile
      split
      · rename_i s k' huse
        have hne : k' ≠ k := by
          rintro rfl
          exact hat ⟨s, huse⟩
        exact getElem?_modify_ne _ _ hne
      · rfl
    rw [IsDrm, Lit, hfiles]
    exact ⟨Iff.rfl, fun _ => ⟨fun h => absurd h.1 hat, fun _ => Iff.rfl⟩⟩

lemma OnlyDevices.use (h : m.OnlyDevices m') (fd : ℤ) : m'.use fd = m.use fd := by
  obtain ⟨mdevs, files, mdevreq, rfl⟩ := h
  rfl

lemma OnlyDevices.at_iff (h : m.OnlyDevices m') (fd : ℤ) (k : ℕ) : m'.At fd k ↔ m.At fd k := by
  rw [At, h.use, At]

/-- The kind of a device number does not change so much in an `int`. -/
theorem major_intDev_ne {dev : ℕ} (h : major dev = DRI_MAJOR) : major
    (intDev dev) ≠ INPUT_MAJOR := by
  unfold major intDev DRI_MAJOR INPUT_MAJOR at *
  split_ifs <;> omega

/-- A DRM device that `disable` takes for one is at a descriptor of the terminal. -/
def Hit (m : Mux) (tty : ℤ) (n k : ℕ) : Prop :=
  ∃ s < n, ∃ md, m.mdevs[s]? = some md ∧ md.tty = tty ∧ 0 < md.fd ∧
    major (intDev md.dev) = DRI_MAJOR ∧ m.At md.fd k

/-- How far disengaging has got. -/
structure DisengagedTo (m : Mux) (tty : ℤ) (n : ℕ) (m' : Mux) : Prop where
  only : m.OnlyDevices m'
  rest : ∀ s, n ≤ s → m'.mdevs[s]? = m.mdevs[s]?
  done : ∀ s, s < n → m'.mdevs[s]? = m.mdevs[s]? ∨ ∃ md, m.mdevs[s]? = some md ∧
    major (intDev md.dev) = INPUT_MAJOR ∧ m'.mdevs[s]? = some { md with tty := 0, dev := 0 }
  isDrm : ∀ k, m'.IsDrm k ↔ m.IsDrm k
  lit : ∀ k, m.IsDrm k → (m'.Lit k ↔ m.Lit k ∧ ¬m.Hit tty n k)

/-- What `disable` does to a DRM device. -/
theorem disable_lit {md : Mdev} {s : ℕ} (hs : m.mdevs[s]? = some md) (k : ℕ) :
    ((m.disable s false).IsDrm k ↔ m.IsDrm k) ∧ (m.IsDrm k → ((m.disable s false).Lit k ↔
      m.Lit k ∧ ¬(major (intDev md.dev) = DRI_MAJOR ∧ m.At md.fd k))) := by
  have hfiles : (m.disable s false).files =
    (if major (intDev md.dev) = DRI_MAJOR ∨ major (intDev md.dev) = INPUT_MAJOR
      then m.setFile md.fd (major (intDev md.dev)) false else m).files := by
    unfold disable
    rw [mdev_eq hs]
    dsimp only
    split_ifs <;> rfl
  rw [IsDrm, Lit, hfiles]
  split_ifs with hmaj
  · obtain ⟨hdrm, hlit⟩ := m.setFile_lit md.fd (major (intDev md.dev)) false k
    refine ⟨hdrm, fun h => ?_⟩
    by_cases hhit : m.At md.fd k ∧ major (intDev md.dev) = DRI_MAJOR
    · exact ((hlit h).1 hhit).trans (iff_of_false Bool.false_ne_true fun h => h.2 hhit.symm)
    · exact ((hlit h).2 hhit).trans (and_iff_left fun h => hhit h.symm).symm
  · exact ⟨Iff.rfl, fun _ => (and_iff_left fun h => hmaj (.inl h.1)).symm⟩

lemma disable_mdevs (m : Mux) {md : Mdev} {s : ℕ} (hs : m.mdevs[s]? = some md) :
    (∀ s', s' ≠ s → (m.disable s false).mdevs[s']? = m.mdevs[s']?) ∧
      ((m.disable s false).mdevs[s]? = some md ∨ major (intDev md.dev) = INPUT_MAJOR ∧
        (m.disable s false).mdevs[s]? = some { md with tty := 0, dev := 0 }) := by
  have hmdevs : (m.disable s false).mdevs =
      if major (intDev md.dev) = INPUT_MAJOR then m.mdevs.set s
        { md with tty := 0, dev := 0 } else m.mdevs := by
    have hset (p : Prop) [Decidable p] (fd : ℤ) (maj : ℕ) :
        (if p then m.setFile fd maj false else m).mdevs = m.mdevs := by
      split_ifs
      · obtain ⟨files, heq, -⟩ := setFile_spec m fd maj false
        rw [heq]
      · rfl
    unfold disable
    rw [mdev_eq hs]
    by_cases hinput : major (intDev md.dev) = INPUT_MAJOR
    · rw [if_pos (.inr hinput), if_pos hinput]
      exact congrArg (fun l : List Mdev => l.set s { md with tty := 0, dev := 0 }) (hset _ _ _)
    · rw [if_neg (by simp [hinput]), if_neg hinput, hset]
  rw [hmdevs]
  constructor
  · intro s' hne
    split_ifs
    · exact getElem?_set_ne hne.symm
    · rfl
  · split_ifs with hinput
    · exact .inr ⟨hinput, by rw [List.getElem?_set, if_pos rfl,
        if_pos (List.getElem?_eq_some_iff.mp hs).1]⟩
    · exact .inl hs

lemma hit_succ {n : ℕ} : m.Hit tty (n + 1) k ↔ m.Hit tty n k ∨ ∃ md, m.mdevs[n]? = some md ∧
    md.tty = tty ∧
    0 < md.fd ∧ major (intDev md.dev) = DRI_MAJOR ∧ m.At md.fd k := by
  constructor
  · rintro ⟨s, hs, hmd⟩
    rcases Nat.lt_succ_iff_lt_or_eq.mp hs with hlt | rfl
    · exact .inl ⟨s, hlt, hmd⟩
    · exact .inr hmd
  · rintro (⟨s, hs, hmd⟩ | hmd)
    · exact ⟨s, by omega, hmd⟩
    · exact ⟨n, n.lt_succ_self, hmd⟩

/-- One turn of the loop of `disengage`. -/
theorem DisengagedTo.next {n : ℕ} (h : m.DisengagedTo tty n m') (hn : n < m.mdevs.length) :
    m.DisengagedTo tty (n + 1)
    (if (m'.mdev n).tty = tty ∧ 0 < (m'.mdev n).fd then m'.disable n false else m') := by
  have hmd : m.mdevs[n]? = some m.mdevs[n] := getElem?_eq_getElem hn
  set md := m.mdevs[n] with hmddef
  have hmd' : m'.mdevs[n]? = some md := (h.rest n le_rfl).trans hmd
  rw [mdev_eq hmd']
  split_ifs with hcond
  · obtain ⟨hothers, hself⟩ := disable_mdevs m' hmd'
    refine ⟨h.only.trans (disable_onlyDevices m' n false), fun s hs => ?_, fun s hs => ?_,
      fun k => (disable_lit hmd' k).1.trans (h.isDrm k), fun k hk => ?_⟩
    · rw [hothers s (by omega), h.rest s (by omega)]
    · rcases Nat.lt_succ_iff_lt_or_eq.mp hs with hlt | rfl
      · rw [hothers s (by omega)]
        exact h.done s hlt
      · rcases hself with hsame | ⟨hinput, hgone⟩
        · exact .inl (hsame.trans hmd.symm)
        · exact .inr ⟨md, hmd, hinput, hgone⟩
    · rw [(disable_lit hmd' k).2 ((h.isDrm k).mpr hk), h.lit k hk, hit_succ, not_or, and_assoc,
        h.only.at_iff]
      refine and_congr_right fun _ => and_congr_right fun _ => not_congr ⟨fun hhit => ?_, ?_⟩
      · exact ⟨md, hmd, hcond.1, hcond.2, hhit⟩
      · rintro ⟨md1, hmd1, -, -, hhit⟩
        obtain rfl : md = md1 := Option.mem_unique hmd hmd1
        exact hhit
  · refine ⟨h.only, fun s hs => h.rest s (by omega), fun s hs => ?_, h.isDrm, fun k hk => ?_⟩
    · rcases Nat.lt_succ_iff_lt_or_eq.mp hs with hlt | rfl
      · exact h.done s hlt
      · exact .inl (hmd'.trans hmd.symm)
    · rw [h.lit k hk, hit_succ, or_iff_left]
      rintro ⟨md1, hmd1, htty, hfd, -⟩
      obtain rfl : md = md1 := Option.mem_unique hmd hmd1
      exact hcond ⟨htty, hfd⟩

lemma disengage_spec' (m : Mux) (tty : ℤ) : m.DisengagedTo tty m.mdevs.length
    (m.disengage tty) := by
  refine loop_invariant (P := fun n m' => m.DisengagedTo tty n m') ⟨.refl m, fun _ _ => rfl, nofun,
    fun _ => Iff.rfl, fun k _ => (and_iff_left ?_).symm⟩ fun n hn m' h => h.next hn
  rintro ⟨s, hs, -⟩
  omega

/-- **The DRM devices of a terminal are spared** if none of them is one that `disable` takes for a
DRM device. -/
def Undropped (m : Mux) (tty : ℤ) : Prop :=
  ∀ md, m.Drm tty md → ∀ (k : ℕ) (f : File), m.At md.fd k → m.files[k]? = some f →
    major f.dev = DRI_MAJOR →
    ¬m.Hit tty m.mdevs.length k

lemma undropped_iff : m.Undropped tty ↔
    ∀ md, m.Drm tty md → ∀ k, m.At md.fd k → m.IsDrm k → ¬m.Hit tty m.mdevs.length k :=
  ⟨fun h md hmd k hat ⟨f, hf, hdri⟩ => h md hmd k f hat hf hdri, fun h md hmd k f hat hf hdri =>
    h md hmd k hat ⟨f, hf, hdri⟩⟩

/-- A device stays in the table when another one is disabled, and no other one gets there. -/
theorem DisengagedTo.mem_iff {n : ℕ} (h : m.DisengagedTo tty n m') {md : Mdev}
    (hkind : major (intDev md.dev) ≠ INPUT_MAJOR) (hdev : md.dev ≠ 0) : md ∈ m'.mdevs ↔
      md ∈ m.mdevs := by
  rw [mem_iff_getElem?, mem_iff_getElem?]
  refine exists_congr fun s => ?_
  by_cases hlt : s < n
  · rcases h.done s hlt with hsame | ⟨md0, hmd0, hinput, hgone⟩
    · rw [hsame]
    · rw [hgone, hmd0]
      refine iff_of_false ?_ ?_
      · rintro ⟨⟩
        exact hdev rfl
      · rintro ⟨⟩
        exact hkind hinput
  · rw [h.rest s (Nat.le_of_not_lt hlt)]

lemma DisengagedTo.drm_iff {old : ℤ} {n : ℕ} (h : m.DisengagedTo old n m') (tty : ℤ) (md : Mdev) :
    m'.Drm tty md ↔ m.Drm tty md :=
  and_congr_left fun ⟨_, _, hdri⟩ =>
    h.mem_iff (major_intDev_ne hdri) fun h0 => absurd (h0 ▸ hdri : major 0 = DRI_MAJOR) (by decide)

/-- **Disengaging** takes the DRM devices from a terminal. -/
theorem engaged_disengage (m : Mux) (tty : ℤ) : (m.disengage tty).Engaged tty ↔ m.Engaged tty ∧
    m.Undropped tty := by
  have h := disengage_spec' m tty
  simp only [engaged_iff, undropped_iff, h.drm_iff, h.only.at_iff, h.isDrm]
  constructor
  · intro hlit
    exact ⟨fun md hmd k hat hk => ((h.lit k hk).mp (hlit md hmd k hat hk)).1,
      fun md hmd k hat hk => ((h.lit k hk).mp (hlit md hmd k hat hk)).2⟩
  · rintro ⟨heng, hspared⟩ md hmd k hat hk
    exact (h.lit k hk).mpr ⟨heng md hmd k hat hk, hspared md hmd k hat hk⟩

lemma hit_iff : m.Hit tty m.mdevs.length k ↔
    ∃ md ∈ m.mdevs, md.tty = tty ∧ 0 < md.fd ∧ major (intDev md.dev) = DRI_MAJOR ∧
      m.At md.fd k := by
  constructor
  · rintro ⟨s, -, md, hs, hmd⟩
    exact ⟨md, mem_of_getElem? hs, hmd⟩
  · rintro ⟨md, hmem, hmd⟩
    obtain ⟨s, hs⟩ := mem_iff_getElem?.mp hmem
    exact ⟨s, (List.getElem?_eq_some_iff.mp hs).1, md, hs, hmd⟩

/-- **Engaging** changes no table, and the DRM devices of the terminal are enabled then. -/
theorem engage_lights (m : Mux) (tty : ℤ) : (m.engage tty).mdevs = m.mdevs ∧
    (∀ k, (m.engage tty).IsDrm k ↔ m.IsDrm k) ∧ (m.engage tty).Engaged tty := by
  have h : m.OnlyDevices (m.engage tty) ∧ (m.engage tty).mdevs = m.mdevs ∧
      (∀ k, (m.engage tty).IsDrm k ↔ m.IsDrm k) ∧ ∀ s < m.mdevs.length, ∀ md : Mdev,
        m.mdevs[s]? = some md →
        md.tty = tty → 0 < md.fd → major md.dev = DRI_MAJOR → ∀ k, m.At md.fd k → m.IsDrm k →
          (m.engage tty).Lit k := by
    refine loop_invariant (P := fun n (m' : Mux) => m.OnlyDevices m' ∧ m'.mdevs = m.mdevs ∧
      (∀ k, m'.IsDrm k ↔ m.IsDrm k) ∧ ∀ s < n, ∀ md : Mdev, m.mdevs[s]? = some md → md.tty = tty →
        0 < md.fd →
        major md.dev = DRI_MAJOR → ∀ k, m.At md.fd k → m.IsDrm k → m'.Lit k)
          ⟨.refl m, rfl, fun _ => Iff.rfl, nofun⟩ ?_
    rintro n hn m' ⟨honly, hmdevs, hdrm, hlit⟩
    have hmd : m'.mdevs[n]? = some m.mdevs[n] := by rw [hmdevs, getElem?_eq_getElem hn]
    rw [mdev_eq hmd]
    have hlast {s : ℕ} {md : Mdev} (hs : m.mdevs[s]? = some md) (hsn : s = n) : m.mdevs[n] =
      md := by
      rw [hsn, getElem?_eq_getElem hn] at hs
      exact Option.some.inj hs
    split_ifs with hcond
    · refine ⟨honly.trans (setFile_onlyDevices ..), ?_,
        fun k => (m'.setFile_lit _ _ _ k).1.trans (hdrm k),
        fun s hs md hs' htty hfd hdri k hat hk => ?_⟩
      · obtain ⟨files, heq, -⟩ := setFile_spec m' m.mdevs[n].fd DRI_MAJOR true
        rw [heq]
        exact hmdevs
      · obtain ⟨hhit, hmiss⟩ := (m'.setFile_lit m.mdevs[n].fd DRI_MAJOR true k).2 ((hdrm k).mpr hk)
        by_cases hat' : m'.At m.mdevs[n].fd k
        · exact (hhit ⟨hat', rfl⟩).mpr rfl
        · refine (hmiss fun h => hat' h.1).mpr ?_
          rcases Nat.lt_succ_iff_lt_or_eq.mp hs with hlt | hsn
          · exact hlit s hlt md hs' htty hfd hdri k hat hk
          · exact absurd ((honly.at_iff ..).mpr (hlast hs' hsn ▸ hat)) hat'
    · refine ⟨honly, hmdevs, hdrm, fun s hs md hs' htty hfd hdri => ?_⟩
      rcases Nat.lt_succ_iff_lt_or_eq.mp hs with hlt | hsn
      · exact hlit s hlt md hs' htty hfd hdri
      · exact absurd (hlast hs' hsn ▸ ⟨htty, hfd, hdri⟩) hcond
  obtain ⟨honly, hmdevs, hdrm, hlit⟩ := h
  refine ⟨hmdevs, hdrm, engaged_iff.mpr ?_⟩
  rintro md ⟨hmd, htty, hfd, hdri⟩ k hat hk
  rw [hmdevs] at hmd
  obtain ⟨s, hs⟩ := mem_iff_getElem?.mp hmd
  exact hlit s (List.getElem?_eq_some_iff.mp hs).1 md hs htty hfd hdri k ((honly.at_iff ..).mp hat)
    ((hdrm k).mp hk)

/-! ### What is told to whom -/

lemma findTermByTty_eq_some {i : ℕ} : m.findTermByTty tty = some i ↔
    i < m.terms.length ∧ (m.term i).tty = tty ∧ ∀ j < i, (m.term j).tty ≠ tty := by
  have hget {j : ℕ} (hj : j < m.terms.length) : m.term j = m.terms[j] :=
    term_eq (getElem?_eq_getElem hj)
  unfold findTermByTty
  rw [findIdx?_eq_some_iff_getElem]
  constructor
  · rintro ⟨hlt, htty, hbefore⟩
    refine ⟨hlt, hget hlt ▸ of_decide_eq_true htty, fun j hj => ?_⟩
    rw [hget (hj.trans hlt)]
    exact fun hsame => hbefore j hj (decide_eq_true hsame)
  · rintro ⟨hlt, htty, hbefore⟩
    refine ⟨hlt, decide_eq_true (hget hlt ▸ htty), fun j hj hsame => hbefore j hj ?_⟩
    rw [hget (hj.trans hlt)]
    exact of_decide_eq_true hsame

/-- The first session on a terminal, if it has a pipe. -/
theorem piped_iff : m.Piped tty i ↔ (m.term i).tty = tty ∧ 0 < (m.term i).ctlfd ∧ ∀ j < i,
    (m.term j).tty ≠ tty := by
  rw [Piped, findTermByTty_eq_some]
  constructor
  · rintro ⟨⟨-, htty, hbefore⟩, hctl⟩
    exact ⟨htty, hctl, hbefore⟩
  · rintro ⟨htty, hctl, hbefore⟩
    exact ⟨⟨(List.getElem?_eq_some_iff.mp (term_of_pos hctl (.inl rfl))).1, htty, hbefore⟩, hctl⟩

lemma notify_piped (h : m.Piped tty i) (told : Told) (n : Notice) :
    m.notify told tty n (m.term i).session = some n := by
  rw [notify, h.1]
  dsimp only
  rw [if_pos h.2, Function.update_self]

/-! ### Attempts to switch -/

/-- The attempts before the `t`-th one end at some other terminal, and nothing fails. -/
def Strays (tty : ℤ) (tries : ℕ → Try) (t : ℕ) : Prop :=
  ∀ t' < t, 0 ≤ (tries t').unlock ∧ 0 ≤ (tries t').lock ∧ (tries t').lock ≠ tty ∧
    (tries t').wait = 0

/-- **A switch is cut short**: in one of the six attempts the lock cannot be taken off or put
back. -/
def Cut (tty : ℤ) (tries : ℕ → Try) : Prop :=
  ∃ t ≤ 5, Strays tty tries t ∧ ((tries t).unlock < 0 ∨ (tries t).lock < 0)

/-- **A switch arrives** at the terminal that is asked for. -/
def Arrives (tty : ℤ) (tries : ℕ → Try) : Prop :=
  ∃ t ≤ 5, Strays tty tries t ∧ 0 ≤ (tries t).unlock ∧ 0 ≤ (tries t).lock ∧ (tries t).lock = tty ∧
    0 ≤ (tries t).wait

variable {tries : ℕ → Try}

lemma Strays.next {t : ℕ} (h : Strays tty tries t) (hunlock : 0 ≤ (tries t).unlock)
    (hlock : 0 ≤ (tries t).lock) (hne : (tries t).lock ≠ tty) (hwait : (tries t).wait = 0) :
    Strays tty tries (t + 1) := by
  intro t' ht
  rcases Nat.lt_succ_iff_lt_or_eq.mp ht with hlt | rfl
  · exact h t' hlt
  · exact ⟨hunlock, hlock, hne, hwait⟩

lemma Cut.not_arrives (h : Cut tty tries) : ¬Arrives tty tries := by
  rintro ⟨t', -, hstrays', hunlock, hlock, hsame, -⟩
  obtain ⟨t, -, hstrays, hcut⟩ := h
  rcases Nat.lt_trichotomy t t' with hlt | rfl | hlt
  · obtain ⟨h1, h2, -⟩ := hstrays' t hlt
    omega
  · omega
  · exact (hstrays t' hlt).2.2.1 hsame

/-- **The loop of `activate`** ends early just if it is cut short. -/
theorem switchLoop_spec {fuel t : ℕ} (hfuel : t + fuel = 7) (ht : t ≤ 5)
    (h : Strays tty tries t) :
    (∃ ret < 0, switchLoop tty tries fuel t = .inl ret ∧ Cut tty tries) ∨
      ∃ swret ret, 0 ≤ ret ∧ switchLoop tty tries fuel t = .inr (swret, ret) ∧ ¬Cut tty tries ∧
        (0 ≤ swret ∧ ret = tty ↔ Arrives tty tries) := by
  induction fuel generalizing t with
  | zero => omega
  | succ fuel ih =>
    unfold switchLoop
    by_cases hunlock : (tries t).unlock < 0
    · rw [if_pos hunlock]
      exact .inl ⟨_, hunlock, rfl, t, ht, h, .inl hunlock⟩
    by_cases hlock : (tries t).lock < 0
    · rw [if_neg hunlock, if_pos hlock]
      exact .inl ⟨_, hlock, rfl, t, ht, h, .inr hlock⟩
    rw [if_neg hunlock, if_neg hlock]
    rw [not_lt] at hunlock hlock
    split_ifs with hagain
    · exact ih (by omega) (by omega) (h.next hunlock hlock hagain.1 hagain.2.1)
    · -- this is the last attempt
      have hlast {t' : ℕ} (ht' : t' ≤ 5) (hstrays : Strays tty tries t') : t' ≤ t := by
        by_contra hlt
        obtain ⟨-, -, hne, hwait⟩ := hstrays t (by omega)
        exact hagain ⟨hne, hwait, by omega⟩
      refine .inr ⟨_, _, hlock, rfl, ?_, ?_⟩
      · rintro ⟨t', ht', hstrays, hcut⟩
        rcases Nat.lt_or_eq_of_le (hlast ht' hstrays) with hlt | rfl
        · obtain ⟨h1, h2, -⟩ := h t' hlt
          omega
        · omega
      · constructor
        · rintro ⟨hwait, hsame⟩
          exact ⟨t, ht, h, hunlock, hlock, hsame, hwait⟩
        · rintro ⟨t', ht', hstrays, -, -, hsame, hwait⟩
          rcases Nat.lt_or_eq_of_le (hlast ht' hstrays) with hlt | rfl
          · exact absurd hsame (h t' hlt).2.2.1
          · exact ⟨hwait, hsame⟩

/-- Nobody would notice that the terminal has lost its devices. -/
structure Deserted (m : Mux) (tty : ℤ) : Prop where
  quiet : ∀ i, ¬m.Piped tty i
  undropped : m.Undropped tty

lemma OnlyDevices.piped_iff (h : m.OnlyDevices m') (tty : ℤ) (i : ℕ) : m'.Piped tty i ↔
    m.Piped tty i := by
  obtain ⟨mdevs, files, mdevreq, rfl⟩ := h
  exact Iff.rfl

/-- Two states in which as much would be lost with the devices of a terminal. -/
structure Kindred (m m' : Mux) (tty : ℤ) : Prop where
  drm : ∀ md, m'.Drm tty md ↔ m.Drm tty md
  at_ : ∀ fd k, m'.At fd k ↔ m.At fd k
  isDrm : ∀ k, m'.IsDrm k ↔ m.IsDrm k
  hit : ∀ k, m'.Hit tty m'.mdevs.length k ↔ m.Hit tty m.mdevs.length k
  piped : ∀ i, m'.Piped tty i ↔ m.Piped tty i

lemma Kindred.deserted_iff (h : m.Kindred m' tty) : m'.Deserted tty ↔ m.Deserted tty := by
  have hundropped : m'.Undropped tty ↔ m.Undropped tty := by
    simp only [undropped_iff, h.drm, h.at_, h.isDrm, h.hit]
  exact ⟨fun hd => ⟨fun i hi => hd.quiet i ((h.piped i).mpr hi), hundropped.mp hd.undropped⟩,
    fun hd => ⟨fun i hi => hd.quiet i ((h.piped i).mp hi), hundropped.mpr hd.undropped⟩⟩

lemma OnlyDevices.term (h : m.OnlyDevices m') (i : ℕ) : m'.term i = m.term i := by
  rw [Mux.term, h.terms, Mux.term]

/-- **A switch that is cut short** takes everything from the session that is shown. -/
theorem activate_cut (hne : m.activetty ≠ tty) (hcut : Cut tty (sys.tries tty)) (told : Told) :
    (m.activate tty sys).1 < 0 ∧ (m.activate tty sys).2 = m.disengage m.activetty ∧
      ((m.activate tty sys).2.Shown (m.activateTold told tty sys) ↔
        m.Engaged m.activetty ∧ m.Deserted m.activetty) := by
  have honly := disengage_onlyDevices m m.activetty
  rcases @switchLoop_spec tty (sys.tries tty) 7 0 rfl (by omega) nofun with
    ⟨ret, hret, hloop, -⟩ | ⟨-, -, -, -, hno, -⟩
  swap
  · exact absurd hcut hno
  have hact : m.activate tty sys = (ret, m.disengage m.activetty) := by
    rw [activate, if_neg hne, hloop]
  have htold : m.activateTold told tty sys = m.notify told m.activetty .deactivate := by
    rw [activateTold, if_neg hne, hloop]
  rw [hact, htold]
  refine ⟨hret, rfl, fun h => ?_, fun ⟨heng, hquiet, hspared⟩ => ?_⟩
  · have heng := h.engaged
    rw [honly.activetty, engaged_disengage] at heng
    refine ⟨heng.1, fun i hi => ?_, heng.2⟩
    have hlast := h.told i ((honly.piped_iff ..).mpr (honly.activetty.symm ▸ hi)) .deactivate
    rw [honly.term, notify_piped hi] at hlast
    exact nomatch hlast rfl
  · refine ⟨?_, fun i hi => ?_⟩
    · rw [honly.activetty]
      exact (engaged_disengage ..).mpr ⟨heng, hspared⟩
    · rw [honly.piped_iff, honly.activetty] at hi
      exact absurd hi (hquiet i)

/-- **Any other switch** gives the session that is shown then what it should have, whichever it
is. -/
theorem activate_uncut (hne : m.activetty ≠ tty) (hcut : ¬Cut tty (sys.tries tty)) (told : Told) :
    (0 ≤ (m.activate tty sys).1 ↔ Arrives tty (sys.tries tty)) ∧
      (Arrives tty (sys.tries tty) →
        (m.activate tty sys).2 = Mux.engage { m.disengage m.activetty with activetty := tty } tty) ∧
      (m.activate tty sys).2.Shown (m.activateTold told tty sys) := by
  rcases @switchLoop_spec tty (sys.tries tty) 7 0 rfl (by omega) nofun with
    ⟨-, -, -, hyes⟩ | ⟨swret, ret, hret, hloop, -, harrives⟩
  · exact absurd hyes hcut
  have hact : m.activate tty sys = (if swret < 0 then swret else if ret ≠ tty then -11 else ret,
      Mux.engage { m.disengage m.activetty with activetty := ret } ret) := by
    rw [activate, if_neg hne, hloop]
  have htold : m.activateTold told tty sys = m.notify
    (m.notify told m.activetty .deactivate) ret .activate := by
    rw [activateTold, if_neg hne, hloop]
  have honly1 := disengage_onlyDevices m m.activetty
  have honly2 := engage_onlyDevices { m.disengage m.activetty with activetty := ret } ret
  rw [hact, htold, ← harrives]
  refine ⟨?_, fun h => ?_, ?_, fun i hi n hn => ?_⟩
  · dsimp only
    split_ifs <;> omega
  · rw [h.2]
  · dsimp only
    rw [honly2.activetty]
    exact (engage_lights _ ret).2.2
  · dsimp only at hi hn
    rw [honly2.activetty, honly2.piped_iff] at hi
    have hi' : m.Piped ret i := (honly1.piped_iff ..).mp hi
    have hterm : (Mux.engage { m.disengage m.activetty with activetty := ret } ret).term i =
      m.term i :=
      (honly2.term i).trans (honly1.term i)
    rw [hterm, notify_piped hi'] at hn
    exact (Option.some.inj hn).symm

/-! ### States that are alike -/

/-- Two states that differ in nothing that is looked at here. -/
structure Alike (m m' : Mux) : Prop where
  mdevs : m'.mdevs = m.mdevs
  files : m'.files = m.files
  use : ∀ fd, m'.use fd = m.use fd
  activetty : m'.activetty = m.activetty
  slots : m.SameSlots m'

lemma SameSlots.refl (m : Mux) : m.SameSlots m := fun _ _ => rfl

/-- Free slots are alike as far as they are looked at. -/
theorem SameSlots.fields (h : m.SameSlots m') (i : ℕ) :
    (m'.term i).tty = (m.term i).tty ∧ (m'.term i).ctlfd = (m.term i).ctlfd := by
  by_cases hused : (m.term i).nonzero = true ∨ (m'.term i).nonzero = true
  · rw [h i hused]
    exact ⟨rfl, rfl⟩
  · rw [not_or, Bool.not_eq_true, Bool.not_eq_true] at hused
    have hzero {vt : Term} (hvt : vt.nonzero = false) : vt.tty = 0 ∧ vt.ctlfd = 0 := by
      simp only [Term.nonzero, Bool.or_eq_false_iff, decide_eq_false_iff_not, not_not, ne_eq] at hvt
      exact ⟨hvt.1.1.1.1, hvt.1.1.2⟩
    obtain ⟨h1, h2⟩ := hzero hused.1
    obtain ⟨h3, h4⟩ := hzero hused.2
    exact ⟨h3.trans h1.symm, h4.trans h2.symm⟩

lemma SameSlots.trans {m'' : Mux} (h : m.SameSlots m') (h' : m'.SameSlots m'') :
    m.SameSlots m'' := by
  intro i hused
  by_cases hmid : (m'.term i).nonzero = true
  · rw [h' i (.inl hmid), h i (.inr hmid)]
  · rcases hused with hused | hused
    · exact absurd (h i (.inl hused) ▸ hused) hmid
    · exact absurd (h' i (.inr hused) ▸ hused) hmid

lemma SameSlots.piped_iff (h : m.SameSlots m') (tty : ℤ) (i : ℕ) : m'.Piped tty i ↔
    m.Piped tty i := by
  rw [Mux.piped_iff, Mux.piped_iff, (h.fields i).1, (h.fields i).2]
  refine and_congr_right fun _ => and_congr_right fun _ => forall_congr' fun j => ?_
  rw [(h.fields j).1]

/-- A session with a pipe is in use. -/
theorem Piped.nonzero (h : m.Piped tty i) : (m.term i).nonzero = true := by
  have hne : (m.term i).ctlfd ≠ 0 := by
    have := h.2
    omega
  simp [Term.nonzero, hne]

lemma SameSlots.find_isSome (h : m.SameSlots m') {tty : ℤ} (htty : tty ≠ 0) :
    (m'.findTermByTty tty).isSome = (m.findTermByTty tty).isSome := by
  -- a terminal that is there is in a slot that is in use
  have hfind (m : Mux) : (m.findTermByTty tty).isSome = true ↔ ∃ i, (m.term i).tty = tty := by
    rw [findTermByTty, List.findIdx?_isSome, List.any_eq_true]
    constructor
    · rintro ⟨vt, hvt, hsame⟩
      obtain ⟨i, hi⟩ := mem_iff_getElem?.mp hvt
      exact ⟨i, term_eq hi ▸ of_decide_eq_true hsame⟩
    · rintro ⟨i, hi⟩
      rcases hget : m.terms[i]? with _ | vt
      · rw [Mux.term, getD_eq_getElem?_getD, hget] at hi
        exact absurd hi.symm htty
      · exact ⟨vt, mem_of_getElem? hget, decide_eq_true (term_eq hget ▸ hi)⟩
  rw [Bool.eq_iff_iff, hfind, hfind]
  exact exists_congr fun i => by rw [(h.fields i).1]

namespace Alike

lemma trans {m'' : Mux} (h : m.Alike m') (h' : m'.Alike m'') : m.Alike m'' :=
  ⟨h'.mdevs.trans h.mdevs, h'.files.trans h.files, fun fd => (h'.use fd).trans (h.use fd),
    h'.activetty.trans h.activetty, h.slots.trans h'.slots⟩

lemma at_iff (h : m.Alike m') (fd : ℤ) (k : ℕ) : m'.At fd k ↔ m.At fd k := by
  rw [At, h.use, At]

lemma drm_iff (h : m.Alike m') (tty : ℤ) (md : Mdev) : m'.Drm tty md ↔ m.Drm tty md := by
  rw [Drm, h.mdevs, Drm]

lemma engaged_iff (h : m.Alike m') (tty : ℤ) : m'.Engaged tty ↔ m.Engaged tty := by
  simp only [Engaged, h.drm_iff, h.at_iff, h.files]

lemma deserted_iff (h : m.Alike m') (tty : ℤ) : m'.Deserted tty ↔ m.Deserted tty := by
  refine Kindred.deserted_iff ⟨h.drm_iff tty, h.at_iff, fun k => ?_, fun k => ?_,
    h.slots.piped_iff tty⟩
  · rw [IsDrm, h.files, IsDrm]
  · simp only [Hit, h.mdevs, h.at_iff]

lemma symm (h : m.Alike m') : m'.Alike m :=
  ⟨h.mdevs.symm, h.files.symm, fun fd => (h.use fd).symm, h.activetty.symm,
    fun i hused => (h.slots i hused.symm).symm⟩

lemma shown (h : m.Alike m') (hs : m.Shown told) : m'.Shown told := by
  refine ⟨?_, fun i hi n hn => ?_⟩
  · rw [h.activetty, h.engaged_iff]
    exact hs.engaged
  · rw [h.activetty, h.slots.piped_iff] at hi
    rw [h.slots i (.inl hi.nonzero)] at hn
    exact hs.told i hi n hn

lemma shown_iff (h : m.Alike m') (told : Told) : m'.Shown told ↔ m.Shown told :=
    ⟨h.symm.shown, h.shown⟩

end Alike

lemma SameSlots.greeted_iff (h : m.SameSlots m') (hgreeter : m'.greetertty = m.greetertty) :
    m'.Greeted ↔ m.Greeted := by
  rw [Greeted, Greeted, hgreeter]
  exact forall_congr' fun hne => by rw [h.find_isSome hne]

/-- A slot is taken. -/
theorem alike_grab {terms : List Term} (hgrab : grabSlot Term.nonzero NTERMS {} m.terms = some
    (i, terms)) : m.Alike { m with terms := terms } := by
  obtain ⟨-, hforth, hback⟩ := grabSlot_spec hgrab (by decide)
  refine ⟨rfl, rfl, fun _ => rfl, rfl, fun j hused => ?_⟩
  rcases hget : m.terms[j]? with _ | vt
  · have hnone : m.term j = {} := by
      rw [Mux.term, getD_eq_getElem?_getD, hget, getD_none]
    rw [hnone] at hused ⊢
    have hused := hused.resolve_left (by decide)
    rcases hget' : terms[j]? with _ | vt
    · rw [Mux.term, getD_eq_getElem?_getD, hget'] at hused
      cases hused
    · rw [term_eq (m := { m with terms := terms }) hget'] at hused
      cases hget.symm.trans (hback j vt hget' hused)
  · rw [term_eq hget, term_eq (m := { m with terms := terms }) (hforth j vt hget)]

/-- A slot that is free is given up. -/
theorem alike_free (hfree : (m.term i).nonzero = false) : m.Alike (m.freeTermSlot i) := by
  obtain ⟨hback, -⟩ := freeSlot_spec Term.nonzero {} m.terms i
  refine ⟨rfl, rfl, fun _ => rfl, rfl, fun j hused => ?_⟩
  by_cases hij : j = i
  · subst hij
    have hgone : ((m.freeTermSlot j).term j).nonzero = false := by
      rcases hget : (m.freeTermSlot j).terms[j]? with _ | vt
      · rw [Mux.term, getD_eq_getElem?_getD, hget]
        rfl
      · rw [term_eq hget]
        rcases hback j vt hget with rfl | ⟨hne, -⟩
        · rfl
        · exact absurd rfl hne
    rcases hused with hused | hused
    · cases hused.symm.trans hfree
    · cases hused.symm.trans hgone
  · by_cases hold : (m.term j).nonzero = true
    · exact freeTermSlot_term m hij hold
    · have hnew := hused.resolve_left hold
      rcases hget : (m.freeTermSlot i).terms[j]? with _ | vt
      · rw [Mux.term, getD_eq_getElem?_getD, hget] at hnew
        cases hnew
      · rw [term_eq hget] at hnew ⊢
        rcases hback j vt hget with rfl | ⟨-, hsame⟩
        · cases hnew
        · exact (term_eq hsame).symm

/-- What has been given out is given back. -/
theorem use_startCmdOn (m : Mux) (i : ℕ) (tty : ℤ) (sys : Sys) (h : (m.startCmdOn i tty sys).1 ≠ 0)
    (fd : ℤ) : (m.startCmdOn i tty sys).2.use fd = m.use fd := by
  have hback (m : Mux) (u : Use) : ((m.openFd u).2.sysClose (m.openFd u).1).use fd = m.use fd := by
    by_cases hfd : fd = (m.openFd u).1
    · rw [hfd, use_sysClose_self, use_openFd_before]
    · rw [use_sysClose _ _ _ hfd, use_openFd_ne m u hfd]
  revert h
  unfold startCmdOn
  rcases sys.tty with _ | e
  swap
  · exact fun _ => rfl
  rcases sys.pair with _ | e
  swap
  · exact fun _ => hback m _
  split_ifs
  swap
  · exact fun h => absurd rfl h
  intro _
  dsimp only
  set m1 := (m.openFd (.tty i)).2
  set m2 := (m1.openFd (.ctl i)).2
  by_cases h1 : fd = (m.openFd (.tty i)).1
  · rw [h1, use_sysClose_self, use_openFd_before]
  rw [use_sysClose _ _ _ h1, ← use_openFd_ne m (.tty i) h1]
  by_cases h2 : fd = (m1.openFd (.ctl i)).1
  · have hnone : m1.use fd = none := h2 ▸ use_openFd_before m1 (.ctl i)
    by_cases h3 : fd = (m2.openFd .other).1
    · rw [h3, use_sysClose_self, ← h3, hnone]
    · rw [use_sysClose _ _ _ h3, h2, use_sysClose_self, ← h2, hnone]
  · rw [← use_openFd_ne m1 (.ctl i) h2]
    by_cases h3 : fd = (m2.openFd .other).1
    · rw [h3, use_sysClose_self, use_openFd_before]
    · rw [use_sysClose _ _ _ h3, use_sysClose _ _ _ h2, use_openFd_ne m2 .other h3]

/-- **A session that cannot be started** leaves nothing behind. -/
theorem startCmdOn_fail (m : Mux) (i : ℕ) (tty : ℤ) (sys : Sys)
    (h : (m.startCmdOn i tty sys).1 ≠ 0) :
    (m.startCmdOn i tty sys).1 < 0 ∧ m.Alike (m.startCmdOn i tty sys).2 ∧
      (m.startCmdOn i tty sys).2.terms = m.terms ∧
        (m.startCmdOn i tty sys).2.greetertty = m.greetertty := by
  have huse := use_startCmdOn m i tty sys h
  obtain ⟨fds, hneg, heq⟩ := (startCmdOn_eq m i tty sys).resolve_right fun ⟨_, _, _, hzero, _⟩ =>
    h hzero
  rw [heq] at huse ⊢
  exact ⟨hneg, ⟨rfl, rfl, huse, rfl, .refl m⟩, rfl, rfl⟩

/-! ### What is left behind -/

/-- There is nothing for a session to be started with, or it would be where it is asked from. -/
def Refused (m : Mux) (tty : ℤ) (sys : Sys) : Prop :=
  sys.access.isSome = true ∨ grabSlot Term.nonzero NTERMS {} m.terms = none ∨ m.activetty = tty

/-- **A session that is not started** leaves the one that is shown with what it should have: it had
that, and nothing was switched; or no switch is cut short, neither the one to the new terminal nor
the one back. -/
structure SpawnSpared (m : Mux) (told : Told) (tty : ℤ) (sys : Sys) : Prop where
  refused : m.Refused tty sys → m.Shown told
  away : ¬m.Refused tty sys → Cut tty (sys.tries tty) → m.Engaged m.activetty ∧
    m.Deserted m.activetty
  back : ¬m.Refused tty sys → Arrives tty (sys.tries tty) →
    Cut m.activetty (sys.tries m.activetty) → m.Deserted tty

/-- **What must be so** for a call that fails to leave something behind that can be used. -/
def Spared (m : Mux) (told : Told) (sys : Sys) : Call → Prop
  | .activate tty => m.Greeted ∧ (Cut tty (sys.tries tty) → m.Engaged m.activetty ∧
    m.Deserted m.activetty)
  | .spawn tty => m.Greeted ∧ m.SpawnSpared told tty sys
  | .showGreeter =>
    if m.greetertty < 0 then m.Greeted ∧ m.Shown told
    else if m.greetertty ≠ 0 then
      m.Greeted ∧ (Cut m.greetertty (sys.tries m.greetertty) → m.Engaged m.activetty ∧
        m.Deserted m.activetty)
    else if m.queryGreeterTty sys < 0 then m.Shown told
    else (m.findTermByTty (m.queryGreeterTty sys)).isSome = true ∧ m.SpawnSpared told
    (m.queryGreeterTty sys) sys

/-- Where a switch has arrived, no more and no fewer would notice. -/
theorem deserted_arrived {old : ℤ} (m : Mux) (tty : ℤ) :
    (Mux.engage { m.disengage old with activetty := tty } tty).Deserted tty ↔ m.Deserted tty := by
  have h := disengage_spec' m old
  have hinput : ¬DRI_MAJOR = INPUT_MAJOR := by decide
  have hoff : m.Kindred { m.disengage old with activetty := tty } tty := by
    refine ⟨h.drm_iff tty, h.only.at_iff, h.isDrm, fun k => ?_, h.only.piped_iff tty⟩
    rw [hit_iff, hit_iff]
    have hmem {md : Mdev} (hdri : major (intDev md.dev) = DRI_MAJOR) :
      md ∈ (m.disengage old).mdevs ↔ md ∈ m.mdevs :=
      h.mem_iff (hdri ▸ hinput) fun h0 => absurd (h0 ▸ hdri : major (intDev 0) = DRI_MAJOR)
        (by decide)
    exact exists_congr fun md =>
      ⟨fun ⟨h1, h2, h3, h4, h5⟩ => ⟨(hmem h4).mp h1, h2, h3, h4, (h.only.at_iff ..).mp h5⟩,
        fun ⟨h1, h2, h3, h4, h5⟩ => ⟨(hmem h4).mpr h1, h2, h3, h4, (h.only.at_iff ..).mpr h5⟩⟩
  have honly := engage_onlyDevices { m.disengage old with activetty := tty } tty
  obtain ⟨hmdevs, hdrm, -⟩ := engage_lights { m.disengage old with activetty := tty } tty
  have hon : Mux.Kindred { m.disengage old with activetty := tty }
      (Mux.engage { m.disengage old with activetty := tty } tty) tty := by
    refine ⟨fun md => by rw [Drm, hmdevs, Drm], honly.at_iff, hdrm, fun k => ?_,
      honly.piped_iff tty⟩
    rw [hit_iff, hit_iff, hmdevs]
    simp only [honly.at_iff]
  exact hon.deserted_iff.trans hoff.deserted_iff

lemma activate_sameSlots (m : Mux) (tty : ℤ) (sys : Sys) :
    m.SameSlots (m.activate tty sys).2 ∧ (m.activate tty sys).2.greetertty = m.greetertty := by
  obtain ⟨activetty, mdevs, files, mdevreq, heq⟩ := activate_onlyDevices m tty sys
  rw [heq]
  exact ⟨fun _ _ => rfl, rfl⟩

lemma activate_same (h : m.activetty = tty) (told : Told) (sys : Sys) :
    m.activate tty sys = (0, m) ∧ m.activateTold told tty sys = told :=
  ⟨by rw [activate, if_pos h], by rw [activateTold, if_pos h]⟩

section Spawn

variable {terms : List Term}

lemma spawn_eq (tty : ℤ) (haccess : sys.access = none)
    (hgrab : grabSlot Term.nonzero NTERMS {} m.terms = some (i, terms)) (told : Told) :
    m.spawn tty sys = (if (Mux.activate { m with terms := terms } tty sys).1 < 0 then
          ((Mux.activate { m with terms := terms } tty sys).1,
            (Mux.activate { m with terms := terms } tty sys).2.freeTermSlot i)
        else if ((Mux.activate { m with terms := terms } tty sys).2.startCmdOn i tty sys).1 = 0 then
          (0, ((Mux.activate { m with terms := terms } tty sys).2.startCmdOn i tty sys).2)
        else (((Mux.activate { m with terms := terms } tty sys).2.startCmdOn i tty sys).1,
          (((Mux.activate { m with terms := terms } tty sys).2.startCmdOn i tty sys).2.activate
            m.activetty
            sys).2.freeTermSlot i)) ∧
      m.spawnTold told tty sys = (if (Mux.activate { m with terms := terms } tty sys).1 < 0 then
          Mux.activateTold { m with terms := terms } told tty sys
        else if ((Mux.activate { m with terms := terms } tty sys).2.startCmdOn i tty sys).1 = 0 then
          Mux.activateTold { m with terms := terms } told tty sys
        else ((Mux.activate { m with terms := terms } tty sys).2.startCmdOn i tty
          sys).2.activateTold
          (Mux.activateTold { m with terms := terms } told tty sys) m.activetty sys) := by
  unfold spawn spawnTold
  rw [haccess, hgrab]
  exact ⟨rfl, rfl⟩

/-- **Starting a session** that fails. -/
theorem spawn_spared (hfail : (m.spawn tty sys).1 < 0) (told : Told) :
    ((m.spawn tty sys).2.Shown (m.spawnTold told tty sys) ↔ m.SpawnSpared told tty sys) ∧
      m.SameSlots (m.spawn tty sys).2 ∧ (m.spawn tty sys).2.greetertty = m.greetertty := by
  have hrefused (href : m.Refused tty sys) : m.Shown told ↔ m.SpawnSpared told tty sys :=
    ⟨fun h => ⟨fun _ => h, fun hno => absurd href hno, fun hno => absurd href hno⟩,
      fun h => h.refused href⟩
  rcases haccess : sys.access with _ | e
  swap
  · have hspawn : m.spawn tty sys = (e.1, m) := by rw [spawn, haccess]
    have htold : m.spawnTold told tty sys = told := by rw [spawnTold, haccess]
    rw [hspawn, htold]
    exact ⟨hrefused (.inl (by rw [haccess]; rfl)), .refl m, rfl⟩
  rcases hgrab : grabSlot Term.nonzero NTERMS {} m.terms with _ | ⟨i, terms⟩
  · have hspawn : m.spawn tty sys = (-24, m) := by rw [spawn, haccess, hgrab]
    have htold : m.spawnTold told tty sys = told := by rw [spawnTold, haccess, hgrab]
    rw [hspawn, htold]
    exact ⟨hrefused (.inr (.inl hgrab)), .refl m, rfl⟩
  have hal := alike_grab hgrab
  obtain ⟨⟨vt, hvt, hvtfree⟩, -, -⟩ := grabSlot_spec hgrab (by decide)
  obtain ⟨hspawn, htold⟩ := spawn_eq tty haccess hgrab told
  -- the slot stays free while terminals are switched
  have hfree {m' : Mux} (hm' : m'.terms = terms) : (m'.term i).nonzero = false := by
    have hslot : m'.terms[i]? = some vt := by rw [hm', hvt]
    rw [term_eq hslot, hvtfree]
  rw [hspawn] at hfail
  rw [hspawn, htold]
  have hact0 : Mux.activetty { m with terms := terms } = m.activetty := rfl
  have hterms0 : Mux.terms { m with terms := terms } = terms := rfl
  have hgreeter0 : Mux.greetertty { m with terms := terms } = m.greetertty := rfl
  generalize ({ m with terms := terms } : Mux) = m0 at hal hfail hact0 hterms0 hgreeter0 ⊢
  by_cases hact : m.activetty = tty
  · -- nothing is switched, neither to the terminal nor back
    obtain ⟨h1, h2⟩ := activate_same (hact0.trans hact) told sys
    rw [h1] at hfail
    rw [h1, h2]
    rw [if_neg (lt_irrefl 0)] at hfail ⊢
    rw [if_neg (lt_irrefl 0)]
    by_cases hstart : (m0.startCmdOn i tty sys).1 = 0
    · rw [if_pos hstart] at hfail
      exact absurd hfail (lt_irrefl 0)
    obtain ⟨-, hal2, hterms2, hgreeter2⟩ := startCmdOn_fail m0 i tty sys hstart
    obtain ⟨h3, h4⟩ := activate_same (hal2.activetty.trans hact0) told sys
    rw [if_neg hstart, if_neg hstart, h3, h4]
    have hall := (hal.trans hal2).trans (alike_free (hfree (hterms2.trans hterms0)))
    exact ⟨(hall.shown_iff told).trans (hrefused (.inr (.inr hact))), hall.slots,
      hgreeter2.trans hgreeter0⟩
  have hno : ¬m.Refused tty sys := by
    rintro (h | h | h)
    · rw [haccess] at h
      cases h
    · exact nomatch hgrab.symm.trans h
    · exact hact h
  obtain ⟨hslots1, hgreeter1⟩ := activate_sameSlots m0 tty sys
  have hterms1 := (activate_terms m0 tty sys).trans hterms0
  by_cases hcut : Cut tty (sys.tries tty)
  · obtain ⟨hneg, -, hshown⟩ := activate_cut (m := m0) (by rwa [hact0]) hcut told
    rw [if_pos hneg, if_pos hneg]
    have halfree := alike_free (hfree hterms1)
    refine ⟨?_, (hal.slots.trans hslots1).trans halfree.slots, hgreeter1.trans hgreeter0⟩
    rw [halfree.shown_iff, hshown, hact0, hal.engaged_iff, hal.deserted_iff]
    refine ⟨fun h => ⟨fun href => absurd href hno, fun _ _ => h,
      fun _ harr => absurd harr hcut.not_arrives⟩, fun h => h.away hno hcut⟩
  obtain ⟨hnonneg, harrived, hshown⟩ := activate_uncut (m := m0) (by rwa [hact0]) hcut told
  by_cases harr : Arrives tty (sys.tries tty)
  swap
  · -- the switch ends somewhere else, or it is not waited for
    have hneg : (m0.activate tty sys).1 < 0 := not_le.mp fun h => harr (hnonneg.mp h)
    rw [if_pos hneg, if_pos hneg]
    have halfree := alike_free (hfree hterms1)
    refine ⟨?_, (hal.slots.trans hslots1).trans halfree.slots, hgreeter1.trans hgreeter0⟩
    rw [halfree.shown_iff]
    exact ⟨fun _ => ⟨fun href => absurd href hno, fun _ h => absurd h hcut,
      fun _ h => absurd h harr⟩, fun _ => hshown⟩
  have hge : ¬(m0.activate tty sys).1 < 0 := not_lt.mpr (hnonneg.mpr harr)
  rw [if_neg hge] at hfail ⊢
  rw [if_neg hge]
  have hform := harrived harr
  generalize (m0.activate tty sys).2 = m1 at *
  by_cases hstart : (m1.startCmdOn i tty sys).1 = 0
  · rw [if_pos hstart] at hfail
    exact absurd hfail (lt_irrefl 0)
  rw [if_neg hstart, if_neg hstart]
  obtain ⟨-, hal2, hterms2, hgreeter2⟩ := startCmdOn_fail m1 i tty sys hstart
  generalize (m1.startCmdOn i tty sys).2 = m2 at hal2 hterms2 hgreeter2 ⊢
  have hact1 : m1.activetty = tty := by
    rw [hform]
    exact (engage_onlyDevices _ tty).activetty
  have hne2 : m2.activetty ≠ m.activetty := by
    rw [hal2.activetty, hact1]
    exact fun h => hact h.symm
  obtain ⟨hslots3, hgreeter3⟩ := activate_sameSlots m2 m.activetty sys
  have halfree := alike_free (hfree ((activate_terms m2 m.activetty sys).trans
    (hterms2.trans hterms1)))
  refine ⟨?_, (((hal.slots.trans hslots1).trans hal2.slots).trans hslots3).trans halfree.slots,
    hgreeter3.trans (hgreeter2.trans (hgreeter1.trans hgreeter0))⟩
  rw [halfree.shown_iff]
  by_cases hback : Cut m.activetty (sys.tries m.activetty)
  · obtain ⟨-, -, hshown3⟩ := activate_cut hne2 hback (m0.activateTold told tty sys)
    have heng : m1.Engaged tty := hact1 ▸ hshown.engaged
    rw [hshown3, hal2.activetty, hact1, hal2.engaged_iff, hal2.deserted_iff, and_iff_right heng,
      hform,
      deserted_arrived, hal.deserted_iff]
    exact ⟨fun h => ⟨fun href => absurd href hno, fun _ h => absurd h hcut, fun _ _ _ => h⟩,
      fun h => h.back hno harr hback⟩
  · obtain ⟨-, -, hshown3⟩ := activate_uncut hne2 hback (m0.activateTold told tty sys)
    exact ⟨fun _ => ⟨fun href => absurd href hno, fun _ h => absurd h hcut,
      fun _ _ h => absurd h hback⟩,
      fun _ => hshown3⟩

end Spawn

lemma SpawnSpared.alike (h : m.Alike m') (hterms : m'.terms = m.terms)
    (hs : m.SpawnSpared told tty sys) : m'.SpawnSpared told tty sys := by
  have hrefused : m'.Refused tty sys ↔ m.Refused tty sys := by
    rw [Refused, hterms, h.activetty, Refused]
  refine ⟨fun href => h.shown (hs.refused (hrefused.mp href)), fun hno hcut => ?_,
    fun hno harr hcut => ?_⟩
  · rw [h.activetty, h.engaged_iff, h.deserted_iff]
    exact hs.away (fun href => hno (hrefused.mpr href)) hcut
  · rw [h.deserted_iff]
    exact hs.back (fun href => hno (hrefused.mpr href)) harr (h.activetty ▸ hcut)

lemma SpawnSpared.congr (h : m.Alike m') (hterms : m'.terms = m.terms) :
    m'.SpawnSpared told tty sys ↔ m.SpawnSpared told tty sys :=
  ⟨.alike h.symm hterms.symm, .alike h hterms⟩

/-- A terminal for the greeter is one of those there are. -/
theorem queryGreeterTty_pos (h : ¬m.queryGreeterTty sys < 0) : 0 < m.queryGreeterTty sys := by
  revert h
  unfold queryGreeterTty
  rcases sys.vts with e | vts
  · exact fun h => absurd e.2 h
  dsimp only
  split
  · rename_i tty hfind
    have hpos : ∀ n ∈ [12, 11, 10] ++ (range 8).map (13 + ·) ++ (range 32).map (1 + ·),
      0 < n := by decide
    exact fun _ => Int.natCast_pos.mpr (hpos tty (mem_of_find?_eq_some hfind))
  · exact fun h => absurd (by decide) h

lemma activate_spared (hfail : (m.activate tty sys).1 < 0) (told : Told) :
    (m.activate tty sys).2.Shown (m.activateTold told tty sys) ↔
      (Cut tty (sys.tries tty) → m.Engaged m.activetty ∧ m.Deserted m.activetty) := by
  have hne : m.activetty ≠ tty := by
    intro h
    rw [(activate_same h told sys).1] at hfail
    exact absurd hfail (lt_irrefl 0)
  by_cases hcut : Cut tty (sys.tries tty)
  · obtain ⟨-, -, hshown⟩ := activate_cut hne hcut told
    rw [hshown]
    exact ⟨fun h _ => h, fun h => h hcut⟩
  · obtain ⟨-, -, hshown⟩ := activate_uncut hne hcut told
    exact ⟨fun _ h => absurd h hcut, fun _ => hshown⟩

/-- **Going to a terminal** that fails, where the terminal is not one or there is a session on
it. -/
theorem switchto_spared (hfail : (m.switchto tty sys).1 < 0) (told : Told) :
    (m.SameSlots (m.switchto tty sys).2 ∧ (m.switchto tty sys).2.greetertty = m.greetertty) ∧
      (tty ≤ 0 → ((m.switchto tty sys).2.Shown (m.switchtoTold told tty sys) ↔ m.Shown told)) ∧
      (0 < tty → (m.findTermByTty tty).isSome = true →
        ((m.switchto tty sys).2.Shown (m.switchtoTold told tty sys) ↔
          (Cut tty (sys.tries tty) → m.Engaged m.activetty ∧ m.Deserted m.activetty))) := by
  revert hfail
  unfold switchto switchtoTold
  have hal : m.Alike { m with switchlock := false } := ⟨rfl, rfl, fun _ => rfl, rfl, .refl m⟩
  have hgreeter : Mux.greetertty { m with switchlock := false } = m.greetertty := rfl
  have hfind : Mux.findTermByTty { m with switchlock := false } tty = m.findTermByTty tty := rfl
  by_cases hle : tty ≤ 0
  · rw [if_pos hle, if_pos hle]
    exact fun _ => ⟨⟨.refl m, rfl⟩, fun _ => Iff.rfl, fun h => absurd h (by omega)⟩
  rw [if_neg hle, if_neg hle]
  by_cases hhere : tty = m.activetty
  · rw [if_pos hhere]
    exact fun h => absurd h (lt_irrefl 0)
  rw [if_neg hhere, if_neg hhere]
  dsimp only
  rw [hfind]
  by_cases hfound : (m.findTermByTty tty).isSome = true
  · rw [if_pos hfound, if_pos hfound]
    intro hfail
    obtain ⟨hslots, hgreeter'⟩ := activate_sameSlots { m with switchlock := false } tty sys
    refine ⟨⟨hal.slots.trans hslots, hgreeter'.trans hgreeter⟩, fun h => absurd h hle,
      fun _ _ => ?_⟩
    rw [activate_spared hfail told, hal.activetty, hal.engaged_iff, hal.deserted_iff]
  · rw [if_neg hfound, if_neg hfound]
    split_ifs
    · intro hfail
      obtain ⟨-, hslots, hgreeter'⟩ := spawn_spared hfail told
      exact ⟨⟨hal.slots.trans hslots, hgreeter'.trans hgreeter⟩, fun h => absurd h hle,
        fun _ h => absurd h hfound⟩
    · exact fun _ => ⟨⟨hal.slots, hgreeter⟩, fun h => absurd h hle, fun _ h => absurd h hfound⟩

/-- What comes of `show_greeter`, apart from where the user is said to have been last. -/
theorem showGreeter_eq (m : Mux) (told : Told) (sys : Sys) : ∃ m1, m.Alike m1 ∧ m1.terms = m.terms ∧
    m1.greetertty = m.greetertty ∧
    m.showGreeter sys =
      (if m.greetertty ≠ 0 then m1.switchto m.greetertty sys
      else if m.queryGreeterTty sys < 0 then (m.queryGreeterTty sys, m1)
      else Mux.spawn { m1 with greetertty := m.queryGreeterTty sys } (m.queryGreeterTty sys) sys) ∧
    m.showGreeterTold told sys =
      (if m.greetertty ≠ 0 then m1.switchtoTold told m.greetertty sys
      else if m.queryGreeterTty sys < 0 then told
      else Mux.spawnTold { m1 with greetertty := m.queryGreeterTty sys } told
        (m.queryGreeterTty sys) sys) := by
  obtain ⟨last, hlast⟩ : ∃ last, (if m.activetty ≠ m.greetertty then
    { m with lastusertty := m.activetty } else m) = { m with lastusertty := last } := by
    split_ifs
    · exact ⟨_, rfl⟩
    · exact ⟨m.lastusertty, rfl⟩
  refine ⟨{ m with lastusertty := last }, ⟨rfl, rfl, fun _ => rfl, rfl, .refl m⟩, rfl, rfl, ?_, ?_⟩
  · unfold showGreeter
    rw [hlast]
    rfl
  · unfold showGreeterTold
    rw [hlast]
    rfl

/-- **A call that fails leaves something behind that can be used** just if nothing is cut short that
somebody would notice, and no greeter is said to be where none could be started. -/
theorem leavesUsable_iff (m : Mux) (told : Told) (c : Call) (sys : Sys)
    (hfail : (c.run m sys).1 < 0) : m.LeavesUsable told c sys ↔ m.Spared told sys c := by
  cases c with
  | activate tty =>
    obtain ⟨hslots, hgreeter⟩ := activate_sameSlots m tty sys
    have hshown := activate_spared hfail told
    have hgreeted := hslots.greeted_iff hgreeter
    exact ⟨fun h => ⟨hgreeted.mp h.greeted, hshown.mp h.shown⟩,
      fun h => ⟨hshown.mpr h.2, hgreeted.mpr h.1, hslots⟩⟩
  | spawn tty =>
    obtain ⟨hshown, hslots, hgreeter⟩ := spawn_spared hfail told
    have hgreeted := hslots.greeted_iff hgreeter
    exact ⟨fun h => ⟨hgreeted.mp h.greeted, hshown.mp h.shown⟩,
      fun h => ⟨hshown.mpr h.2, hgreeted.mpr h.1, hslots⟩⟩
  | showGreeter =>
    obtain ⟨m1, hal, hterms, hgreeter, hrun, htells⟩ := showGreeter_eq m told sys
    have hparts : m.LeavesUsable told .showGreeter sys ↔
        (m.showGreeter sys).2.Shown (m.showGreeterTold told sys) ∧ (m.showGreeter sys).2.Greeted ∧
          m.SameSlots (m.showGreeter sys).2 :=
            ⟨fun h => ⟨h.1, h.2, h.3⟩, fun h => ⟨h.1, h.2.1, h.2.2⟩⟩
    rw [hparts]
    change (m.showGreeter sys).1 < 0 at hfail
    rw [hrun] at hfail
    rw [hrun, htells, Spared]
    by_cases hzero : m.greetertty = 0
    · -- there is no greeter, and a terminal is looked for
      have hneg : ¬m.greetertty < 0 := by omega
      rw [if_neg (not_not.mpr hzero)] at hfail
      rw [if_neg (not_not.mpr hzero), if_neg (not_not.mpr hzero), if_neg hneg,
        if_neg (not_not.mpr hzero)]
      by_cases hquery : m.queryGreeterTty sys < 0
      · rw [if_pos hquery, if_pos hquery, if_pos hquery, hal.shown_iff]
        have hgreeted : m1.Greeted := fun hne => absurd (hgreeter.trans hzero) hne
        exact ⟨fun h => h.1, fun h => ⟨h, hgreeted, hal.slots⟩⟩
      · rw [if_neg hquery] at hfail
        rw [if_neg hquery, if_neg hquery, if_neg hquery]
        have hpos := queryGreeterTty_pos hquery
        generalize m.queryGreeterTty sys = tty at hpos hfail ⊢
        have hal2 : m.Alike { m1 with greetertty := tty } :=
          hal.trans ⟨rfl, rfl, fun _ => rfl, rfl, .refl m1⟩
        obtain ⟨hshown, hslots, hgreeter2⟩ := spawn_spared hfail told
        rw [hshown, SpawnSpared.congr hal2 hterms]
        have hsame := hal2.slots.trans hslots
        have hgreeted : (Mux.spawn { m1 with greetertty := tty } tty sys).2.Greeted ↔
            (m.findTermByTty tty).isSome = true := by
          have hgreeter3 : (Mux.spawn { m1 with greetertty := tty } tty sys).2.greetertty = tty :=
            hgreeter2
          rw [Greeted, hgreeter3, hsame.find_isSome hpos.ne']
          exact ⟨fun h => h hpos.ne', fun h _ => h⟩
        exact ⟨fun h => ⟨hgreeted.mp h.2.1, h.1⟩, fun h => ⟨h.2, hgreeted.mpr h.1, hsame⟩⟩
    · -- there is said to be one
      rw [if_pos hzero] at hfail
      rw [if_pos hzero, if_pos hzero, if_pos hzero]
      obtain ⟨⟨hslots, hgreeter2⟩, hout, hin⟩ := switchto_spared hfail told
      have hsame := hal.slots.trans hslots
      have hgreeted := hsame.greeted_iff (hgreeter2.trans hgreeter)
      by_cases hneg : m.greetertty < 0
      · rw [if_pos hneg, hout (by omega), hal.shown_iff]
        exact ⟨fun h => ⟨hgreeted.mp h.2.1, h.1⟩, fun h => ⟨h.2, hgreeted.mpr h.1, hsame⟩⟩
      · rw [if_neg hneg]
        have hfind : m1.findTermByTty m.greetertty = m.findTermByTty m.greetertty := by
          rw [findTermByTty, hterms, findTermByTty]
        have hshown (hg : m.Greeted) := hin (by omega) (by rw [hfind]; exact hg hzero)
        simp only [hal.activetty, hal.engaged_iff, hal.deserted_iff] at hshown
        constructor
        · rintro ⟨h1, h2, -⟩
          have hg := hgreeted.mp h2
          exact ⟨hg, (hshown hg).mp h1⟩
        · rintro ⟨hg, hcut⟩
          exact ⟨(hshown hg).mpr hcut, hgreeted.mpr hg, hsame⟩

/-- A session is shown, and nothing has been told to it. -/
def started : Mux := pinned23.dispatchCmd (.switch 2) (fine 100 pid_100)

/-- A switch that ends where it started, in each attempt. -/
def stays (tty : ℤ) : Sys := { fine 101 pid_101 with tries := fun _ _ => ⟨0, 0, tty⟩ }

/-- A switch before which the lock cannot be taken off. -/
def locked : Sys := { fine 101 pid_101 with tries := fun _ _ => ⟨-5, 0, 2⟩ }

/-- The session that is shown stays there, and is told so. -/
theorem leavesUsable_stays : started.LeavesUsable (fun _ => none) (.activate 3) (stays 2) := by
  have hfail : ((Call.activate 3).run started (stays 2)).1 < 0 := by decide
  refine (leavesUsable_iff started (fun _ => none) (.activate 3) (stays 2) hfail).mpr ⟨nofun, ?_⟩
  rintro ⟨t, -, -, hunlock | hlock⟩
  · have hneg : (0 : ℤ) < 0 := hunlock
    exact absurd hneg (lt_irrefl 0)
  · have hneg : (2 : ℤ) < 0 := hlock
    omega

/-- **Not every call that fails leaves something behind that can be used**: here the session is told
that it is not active, while it is shown. -/
theorem not_leavesUsable : ¬∀ (m : Mux) (told : Told) (c : Call) (sys : Sys),
    Reach Mux.Starts Mux.step (fun _ _ => True) m → m.Shown told → m.Greeted → (c.run m sys).1 < 0 →
      m.LeavesUsable told c sys := by
  intro h
  have hstart : pinned23.Starts := ⟨1, 1, _, rfl⟩
  have hspawn : pinned23.step (.command (.switch 2) (fine 100 (by decide))) = some started := rfl
  have hshown : started.Shown fun _ => none :=
    ⟨fun md hmd => absurd hmd.1 not_mem_nil, fun _ _ _ => nofun⟩
  have hleft := h started (fun _ => none) (.activate 3) locked
    (.next (.start hstart) trivial hspawn) hshown nofun
    (by decide)
  have hlast := hleft.shown.told 0 ⟨rfl, by decide⟩ .deactivate rfl
  cases hlast

end Mux

end Minibase.Vtmux
