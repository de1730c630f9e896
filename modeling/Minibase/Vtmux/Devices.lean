import Minibase.Vtmux.Mux

/-!
# The devices of vtmux and who holds them

What is so of the tables of `vtmux` whatever terminal is shown (`Vtmux.Mux.Kept`): each
descriptor other than zero that is written in a table is for what the table says it is for, each
device in the table is one that was opened, and was sent only to sessions that run on the terminal
it is for. If all in the table are disabled except those for the terminal that is shown
(`Vtmux.Mux.Sound`), devices are for the foreground (`Vtmux.Mux.Sound.foreground`). The code takes
descriptor zero for none. -/

namespace Minibase.Vtmux

open List Option

/-- A number of a device from which an `int` keeps the kind. -/
def Proper (dev : ℕ) : Prop :=
  major (intDev dev) = major dev ∧ (major dev = DRI_MAJOR ∨ major dev = INPUT_MAJOR)

/-- The kind is kept if the number is not negative as an `int`. -/
theorem proper_of_lt {dev : ℕ} (hdev : major dev = DRI_MAJOR ∨ major dev = INPUT_MAJOR)
    (hsign : dev % 2 ^ 32 < 2 ^ 31) : Proper dev := by
  refine ⟨?_, hdev⟩
  rw [intDev, if_pos hsign]
  unfold major DRI_MAJOR INPUT_MAJOR at *
  omega

lemma Proper.ne_zero {dev : ℕ} (h : Proper dev) : dev ≠ 0 := by
  rintro rfl
  rcases h.2 with h | h <;> exact absurd h (by decide)

namespace Mux

/-- A descriptor is written in a table, as one for something. -/
def Holds (m : Mux) (fd : ℤ) : Use → Prop
  | .other => False
  | .ctrl => m.ctrlfd = fd
  | .tty i => ∃ vt, m.terms[i]? = some vt ∧ vt.ttyfd = fd
  | .ctl i => ∃ vt, m.terms[i]? = some vt ∧ vt.ctlfd = fd
  | .conn j => ∃ cn, m.conns[j]? = some cn ∧ cn.fd = fd
  | .dev s k => ∃ md, m.mdevs[s]? = some md ∧ md.fd = fd ∧ md.file = k

/-- A session runs on a terminal. -/
def Runs (m : Mux) (session : ℕ) (tty : ℤ) : Prop :=
  ∃ vt ∈ m.terms, vt.session = session ∧ vt.tty = tty ∧ 0 < vt.pid

/-- **The tables are in order.** -/
structure Kept (m : Mux) : Prop where
  own : ∀ (fd : ℤ) (u : Use), 0 < fd → m.Holds fd u → m.use fd = some u
  proper : ∀ (s : ℕ) (md : Mdev), m.mdevs[s]? = some md → md.dev ≠ 0 → Proper md.dev
  file : ∀ (s : ℕ) (md : Mdev), m.mdevs[s]? = some md → 0 < md.fd → ∃ f,
    m.files[md.file]? = some f ∧
    (md.dev ≠ 0 → f.dev = md.dev ∧ ∀ h ∈ f.holders, m.Runs h md.tty)
  once : ∀ (s s' : ℕ) (md md' : Mdev), m.mdevs[s]? = some md → m.mdevs[s']? = some md' → 0 < md.fd →
    0 < md'.fd →
    md.file = md'.file → s = s'
  held : ∀ (k : ℕ) (f : File), m.files[k]? = some f → f.enabled = true → f.holders ≠ [] →
    ∃ (s : ℕ) (md : Mdev), m.mdevs[s]? = some md ∧ 0 < md.fd ∧ md.dev ≠ 0 ∧ md.file = k

/-- A device in the table is enabled only if a terminal is shown. -/
def Shaded (m : Mux) (tty : ℤ) (s : ℕ) : Prop :=
  ∀ (md : Mdev) (f : File), m.mdevs[s]? = some md → 0 < md.fd → md.dev ≠ 0 →
    m.files[md.file]? = some f → f.enabled = true →
    md.tty = tty

/-- **The tables are in order**, and devices are disabled except those for the terminal that is
shown. -/
structure Sound (m : Mux) : Prop where
  kept : m.Kept
  shaded : ∀ s, m.Shaded m.activetty s

variable {m : Mux} {s : ℕ}

/-- Devices are for the foreground then. -/
theorem Sound.foreground (h : m.Sound) : m.Foreground := by
  intro f hf hen x hx
  obtain ⟨k, hk⟩ := mem_iff_getElem?.mp hf
  obtain ⟨s, md, hs, hfd, hdev, rfl⟩ := h.kept.held k f hk hen (ne_nil_of_mem hx)
  obtain ⟨f', hf', hfile⟩ := h.kept.file s md hs hfd
  obtain rfl : f = f' := Option.mem_unique hk hf'
  obtain ⟨vt, hvt, hsession, htty, -⟩ := (hfile hdev).2 x hx
  exact ⟨vt, hvt, hsession, htty.trans (h.shaded s md f hs hfd hdev hk hen)⟩

/-! ### Descriptors -/

lemma use_sysClose (m : Mux) (n fd : ℤ) (hfd : fd ≠ n) : (m.sysClose n).use fd = m.use fd := by
  unfold sysClose use
  by_cases hn : n < 0
  · rw [if_pos hn]
  · rw [if_neg hn]
    split_ifs with h
    · rfl
    · rw [Table.get_close, if_neg (by omega)]

lemma use_natCast (m : Mux) (n : ℕ) : m.use n = m.fds.get n := by
  rw [use, if_neg (by omega), Int.toNat_natCast]

lemma use_openFd (m : Mux) (u : Use) : (m.openFd u).2.use (m.openFd u).1 = some u := by
  show (m.openFd u).2.use (m.fds.lowest : ℕ) = some u
  rw [use_natCast]
  exact (Table.get_alloc u m.fds _).trans (if_pos rfl)

lemma use_openFd_ne (m : Mux) (u : Use) {fd : ℤ} (hfd : fd ≠ (m.openFd u).1) :
    (m.openFd u).2.use fd = m.use fd := by
  change fd ≠ (m.fds.lowest : ℕ) at hfd
  unfold use
  split_ifs with h
  · rfl
  · exact (Table.get_alloc u m.fds _).trans (if_neg (by omega))

lemma use_openFd_before (m : Mux) (u : Use) : m.use (m.openFd u).1 = none := by
  show m.use (m.fds.lowest : ℕ) = none
  rw [use_natCast, Table.get_lowest]

lemma openFd_nonneg (m : Mux) (u : Use) : 0 ≤ (m.openFd u).1 := Int.natCast_nonneg _

/-! ### Tables -/

lemma getElem?_set {α : Type} {l : List α} {i j : ℕ} {x y : α} (h : (l.set i x)[j]? = some y) :
    j = i ∧ y = x ∨ j ≠ i ∧ l[j]? = some y := by
  rw [List.getElem?_set] at h
  split_ifs at h with h1 h2
  · exact .inl ⟨h1.symm, (Option.some.inj h).symm⟩
  · exact .inr ⟨Ne.symm h1, h⟩

lemma mdev_eq {md : Mdev} (h : m.mdevs[s]? = some md) : m.mdev s = md := by
  rw [mdev, getD_eq_getElem?_getD, h, getD_some]

lemma term_eq {i : ℕ} {vt : Term} (h : m.terms[i]? = some vt) : m.term i = vt := by
  rw [term, getD_eq_getElem?_getD, h, getD_some]

/-- A device in the table changes. -/
theorem Kept.setMdev (h : m.Kept) {md' : Mdev} (hproper : md'.dev ≠ 0 → Proper md'.dev)
    (hown : 0 < md'.fd → m.use md'.fd = some (.dev s md'.file))
    (hfile : 0 < md'.fd → ∃ f, m.files[md'.file]? = some f ∧
      (md'.dev ≠ 0 → f.dev = md'.dev ∧ ∀ h ∈ f.holders, m.Runs h md'.tty))
    (honce : 0 < md'.fd → ∀ (s' : ℕ) (md : Mdev), m.mdevs[s']? = some md → s' ≠ s → 0 < md.fd →
      md.file ≠ md'.file)
    (hheld : ∀ (md : Mdev) (f : File), m.mdevs[s]? = some md → 0 < md.fd → md.dev ≠ 0 →
      m.files[md.file]? = some f → f.enabled = true → f.holders ≠ [] →
      0 < md'.fd ∧ md'.dev ≠ 0 ∧ md'.file = md.file) : (m.setMdev s md').Kept := by
  refine ⟨fun fd u hfd hu => ?_, fun s' md hs => ?_, fun s' md hs hfd => ?_,
    fun s' s'' md md'' hs hs'' hfd hfd'' hsame => ?_, fun k f hk hen hne => ?_⟩
  · cases u with
    | dev s' k =>
      obtain ⟨md, hs, rfl, rfl⟩ := hu
      rcases getElem?_set hs with ⟨rfl, rfl⟩ | ⟨-, hs⟩
      · exact hown hfd
      · exact h.own _ (.dev s' _) hfd ⟨md, hs, rfl, rfl⟩
    | tty i => exact h.own fd (.tty i) hfd hu
    | ctl i => exact h.own fd (.ctl i) hfd hu
    | other => exact h.own fd .other hfd hu
    | ctrl => exact h.own fd .ctrl hfd hu
    | conn j => exact h.own fd (.conn j) hfd hu
  · rcases getElem?_set hs with ⟨rfl, rfl⟩ | ⟨-, hs⟩
    · exact hproper
    · exact h.proper s' md hs
  · rcases getElem?_set hs with ⟨rfl, rfl⟩ | ⟨-, hs⟩
    · exact hfile hfd
    · exact h.file s' md hs hfd
  · rcases getElem?_set hs with ⟨rfl, rfl⟩ | ⟨hne, hold⟩
    · rcases getElem?_set hs'' with ⟨rfl, -⟩ | ⟨hne, hold⟩
      · rfl
      · exact absurd hsame.symm (honce hfd s'' md'' hold hne hfd'')
    · rcases getElem?_set hs'' with ⟨rfl, rfl⟩ | ⟨-, hold'⟩
      · exact absurd hsame (honce hfd'' s' md hold hne hfd)
      · exact h.once s' s'' md md'' hold hold' hfd hfd'' hsame
  · obtain ⟨s', md, hs, hfd, hdev, rfl⟩ := h.held k f hk hen hne
    by_cases hss : s' = s
    · subst hss
      obtain ⟨hfd', hdev', hfile'⟩ := hheld md f hs hfd hdev hk hen hne
      refine ⟨s', md', ?_, hfd', hdev', hfile'⟩
      show (m.mdevs.set s' md')[s']? = _
      rw [List.getElem?_set, if_pos rfl, if_pos (List.getElem?_eq_some_iff.mp hs).1]
    · refine ⟨s', md, ?_, hfd, hdev, rfl⟩
      show (m.mdevs.set s md')[s']? = _
      rw [List.getElem?_set, if_neg (Ne.symm hss), hs]

/-- What has been opened changes, and remains of the same kind and with the same sessions. -/
theorem Kept.setFiles (h : m.Kept) {files : List File}
    (hforth : ∀ (k : ℕ) (f : File), m.files[k]? = some f → ∃ f', files[k]? = some f' ∧
      f'.dev = f.dev ∧
      ∀ x ∈ f'.holders, x ∈ f.holders ∨ ∀ (s : ℕ) (md : Mdev), m.mdevs[s]? = some md → 0 < md.fd →
        md.dev ≠ 0 →
        md.file = k → m.Runs x md.tty)
    (hheld : ∀ (k : ℕ) (f : File), files[k]? = some f → f.enabled = true → f.holders ≠ [] →
      ∃ (s : ℕ) (md : Mdev), m.mdevs[s]? = some md ∧ 0 < md.fd ∧ md.dev ≠ 0 ∧ md.file = k) :
    Kept { m with files := files } := by
  refine ⟨fun fd u hfd hu => h.own fd u hfd ?_, h.proper, fun s md hs hfd => ?_, h.once, hheld⟩
  · cases u <;> exact hu
  · obtain ⟨f, hf, hfile⟩ := h.file s md hs hfd
    obtain ⟨f', hf', hdev', hholders⟩ := hforth md.file f hf
    refine ⟨f', hf', fun hdev => ⟨hdev'.trans (hfile hdev).1, fun x hx => ?_⟩⟩
    rcases hholders x hx with hold | hnew
    · exact (hfile hdev).2 x hold
    · exact hnew s md hs hfd hdev rfl

/-! ### Enabling and disabling -/

/-- What a request to a device does to the devices opened. -/
theorem setFile_spec (m : Mux) (fd : ℤ) (maj : ℕ) (enabled : Bool) :
    ∃ files, m.setFile fd maj enabled = { m with files := files } ∧
      (∀ (k : ℕ) (f : File), m.files[k]? = some f → ∃ f', files[k]? = some f' ∧ f'.dev = f.dev ∧
        f'.holders = f.holders ∧ ((∃ s, m.use fd = some (.dev s k)) → major f.dev = maj →
          f'.enabled = enabled)) ∧
      ∀ (k : ℕ) (f' : File), files[k]? = some f' → ∃ f, m.files[k]? = some f ∧
        f'.holders = f.holders ∧
        (f'.enabled = f.enabled ∨ f'.enabled = enabled ∧ ∃ s, m.use fd = some (.dev s k)) := by
  unfold setFile
  split
  · rename_i s k huse
    refine ⟨_, rfl, fun j f hj => ?_, fun j f' hj => ?_⟩
    · rw [getElem?_modify, hj]
      by_cases hkj : k = j
      · by_cases hmaj : major f.dev = maj
        · exact ⟨{ f with enabled := enabled }, by simp [hkj, hmaj], rfl, rfl, fun _ _ => rfl⟩
        · exact ⟨f, by simp [hmaj], rfl, rfl, fun _ h => absurd h hmaj⟩
      · refine ⟨f, by simp [hkj], rfl, rfl, ?_⟩
        rintro ⟨s', huse'⟩
        rw [huse] at huse'
        injection Option.some.inj huse' with _ hk
        exact absurd hk hkj
    · rw [getElem?_modify] at hj
      obtain ⟨f, hf, hf'⟩ := map_eq_some_iff.mp hj
      refine ⟨f, hf, ?_⟩
      split_ifs at hf' with hkj hmaj
      · subst hf' hkj
        exact ⟨rfl, .inr ⟨rfl, s, huse⟩⟩
      · subst hf'
        exact ⟨rfl, .inl rfl⟩
      · subst hf'
        exact ⟨rfl, .inl rfl⟩
  · rename_i hno
    refine ⟨_, rfl, fun j f hj => ⟨f, hj, rfl, rfl, ?_⟩, fun j f' hj => ⟨f', hj, rfl, .inl rfl⟩⟩
    rintro ⟨s, huse⟩
    exact absurd huse (hno s j)

/-- Nothing gets enabled, and nothing gets into the table. -/
structure Dims (m m' : Mux) : Prop where
  terms : m'.terms = m.terms
  activetty : m'.activetty = m.activetty
  fds : m'.fds = m.fds
  length : m'.mdevs.length = m.mdevs.length
  mdevs : ∀ (s : ℕ) (md : Mdev), m'.mdevs[s]? = some md → md.dev ≠ 0 → m.mdevs[s]? = some md
  files : ∀ (k : ℕ) (f' : File), m'.files[k]? = some f' → f'.enabled = true →
    ∃ f, m.files[k]? = some f ∧ f.enabled = true

lemma Dims.refl (m : Mux) : m.Dims m := ⟨rfl, rfl, rfl, rfl, fun _ _ h _ => h,
    fun _ f h hen => ⟨f, h, hen⟩⟩

lemma Dims.trans {m m' m'' : Mux} (h : m.Dims m') (h' : m'.Dims m'') : m.Dims m'' := by
  refine ⟨h'.terms.trans h.terms, h'.activetty.trans h.activetty, h'.fds.trans h.fds,
    h'.length.trans h.length,
    fun s md hs hdev => h.mdevs s md (h'.mdevs s md hs hdev) hdev, fun k f hk hen => ?_⟩
  obtain ⟨f', hf', hen'⟩ := h'.files k f hk hen
  exact h.files k f' hf' hen'

lemma Dims.shaded {m m' : Mux} {tty : ℤ} (h : m.Dims m') (hs : m.Shaded tty s) :
    m'.Shaded tty s := by
  intro md f hmd hfd hdev hf hen
  obtain ⟨f', hf', hen'⟩ := h.files md.file f hf hen
  exact hs md f' (h.mdevs s md hmd hdev) hfd hdev hf' hen'

/-- **A device is disabled**, and if it is dropped, it is no longer in the table. -/
theorem disable_spec (h : m.Kept) (hs : s < m.mdevs.length) (drop : Bool) :
    (m.disable s drop).Kept ∧ m.Dims (m.disable s drop) ∧ (∀ tty, (m.disable s drop).Shaded tty s) ∧
      (drop = true → ((m.disable s drop).mdev s).dev = 0) ∧
      (m.use (m.mdev s).fd = some (.dev s (m.mdev s).file) → Proper (m.mdev s).dev →
        (∀ f, m.files[(m.mdev s).file]? = some f → f.dev = (m.mdev s).dev) →
        ∀ f, (m.disable s drop).files[(m.mdev s).file]? = some f → f.enabled = false) := by
  have hmd : m.mdevs[s]? = some (m.mdev s) := by
    rw [mdev, getD_eq_getElem?_getD, getElem?_eq_getElem hs, getD_some]
  unfold disable
  dsimp only
  generalize hm1 : (if major (intDev (m.mdev s).dev) = DRI_MAJOR ∨ major
    (intDev (m.mdev s).dev) = INPUT_MAJOR
    then m.setFile (m.mdev s).fd (major (intDev (m.mdev s).dev)) false else m) = m1
  -- the device itself is disabled first, and then what the table says of it is changed
  have hdisabled : ∃ files, m1 = { m with files := files } ∧ m1.Kept ∧ m.Dims m1 ∧
      (m.use (m.mdev s).fd = some (.dev s (m.mdev s).file) → Proper (m.mdev s).dev →
        (∀ f, m.files[(m.mdev s).file]? = some f → f.dev = (m.mdev s).dev) →
        ∀ f, files[(m.mdev s).file]? = some f → f.enabled = false) := by
    by_cases hmaj : major (intDev (m.mdev s).dev) = DRI_MAJOR ∨ major
      (intDev (m.mdev s).dev) = INPUT_MAJOR
    · rw [if_pos hmaj] at hm1
      obtain ⟨files, heq, hforth, hback⟩ := setFile_spec m
        (m.mdev s).fd (major (intDev (m.mdev s).dev)) false
      have hlit (k : ℕ) (f' : File) (hk : files[k]? = some f') (hen : f'.enabled = true) :
          ∃ f, m.files[k]? = some f ∧ f'.holders = f.holders ∧ f.enabled = true := by
        obtain ⟨f, hf, hholders, hsame | ⟨hoff, -⟩⟩ := hback k f' hk
        · exact ⟨f, hf, hholders, hsame ▸ hen⟩
        · exact nomatch hoff.symm.trans hen
      subst hm1
      rw [heq]
      refine ⟨files, rfl, ?_, ⟨rfl, rfl, rfl, rfl, fun _ _ h _ => h, fun k f' hk hen => ?_⟩,
        fun huse hproper hkind f hf => ?_⟩
      · refine h.setFiles (fun k f hk => ?_) fun k f hk hen hne => ?_
        · obtain ⟨f', hf', hdev, hholders, -⟩ := hforth k f hk
          exact ⟨f', hf', hdev, fun x hx => .inl (hholders ▸ hx)⟩
        · obtain ⟨f', hf', hholders, hen'⟩ := hlit k f hk hen
          exact h.held k f' hf' hen' (hholders ▸ hne)
      · obtain ⟨f, hf, -, hen'⟩ := hlit k f' hk hen
        exact ⟨f, hf, hen'⟩
      · obtain ⟨f0, hf0, -⟩ := hback _ f hf
        obtain ⟨f', hf', -, -, hoff⟩ := hforth _ f0 hf0
        obtain rfl : f = f' := Option.mem_unique hf hf'
        refine hoff ⟨s, huse⟩ ?_
        rw [hkind f0 hf0, hproper.1]
    · rw [if_neg hmaj] at hm1
      subst hm1
      refine ⟨m.files, rfl, h, .refl m, fun _ hproper => ?_⟩
      rw [hproper.1] at hmaj
      exact absurd hproper.2 hmaj
  obtain ⟨files, rfl, hkept, hdims, hquiet⟩ := hdisabled
  have hoff (f : File) (hfd : 0 < (m.mdev s).fd) (hdev : (m.mdev s).dev ≠ 0)
      (hf : files[(m.mdev s).file]? = some f) : f.enabled = false := by
    refine hquiet (h.own _ (.dev s _) hfd ⟨_, hmd, rfl, rfl⟩) (h.proper s _ hmd hdev) (fun f' hf' =>
      ?_) f hf
    obtain ⟨f0, hf0, hfile⟩ := h.file s _ hmd hfd
    obtain rfl : f' = f0 := Option.mem_unique hf' hf0
    exact (hfile hdev).1
  split_ifs with hdrop
  · have hmd' : ((m.mdevs.set s { m.mdev s with tty := 0, dev := 0 })[s]?) =
        some { m.mdev s with tty := 0, dev := 0 } := by
      rw [List.getElem?_set, if_pos rfl, if_pos hs]
    have hset : (setMdev { m with files := files } s { m.mdev s with tty := 0, dev := 0 }).Kept :=
      hkept.setMdev (fun h => absurd rfl h)
      (fun hfd => hkept.own _ (.dev s _) hfd ⟨m.mdev s, hmd, rfl, rfl⟩)
      (fun hfd => by
        obtain ⟨f, hf, -⟩ := hkept.file s _ hmd hfd
        exact ⟨f, hf, fun h => absurd rfl h⟩)
      (fun hfd s' md hs' hne hfd' hsame => hne (hkept.once s' s md _ hs' hmd hfd' hfd hsame))
      (fun md f hs' hfd hdev hf hen _ => by
        obtain rfl : m.mdev s = md := Option.mem_unique hmd hs'
        exact nomatch (hoff f hfd hdev hf).symm.trans hen)
    refine ⟨⟨hset.own, hset.proper, hset.file, hset.once, hset.held⟩,
      ⟨rfl, rfl, rfl, by simp [Mux.setMdev], fun s' md hs' hdev => ?_, hdims.files⟩,
      fun tty md f hs' hfd hdev => ?_, fun _ => ?_, hquiet⟩
    · rcases getElem?_set hs' with ⟨-, rfl⟩ | ⟨-, hs'⟩
      · exact absurd rfl hdev
      · exact hs'
    · rcases getElem?_set hs' with ⟨-, rfl⟩ | ⟨hne, -⟩
      · exact absurd rfl hdev
      · exact absurd rfl hne
    · have heq := mdev_eq (m := { m with mdevs := m.mdevs.set s { m.mdev s with tty := 0, dev := 0 }
        }) hmd'
      exact congrArg Mdev.dev heq
  · refine ⟨hkept, hdims, fun tty md f hs' hfd hdev hf hen => ?_, fun hd =>
      absurd (.inl hd) hdrop, hquiet⟩
    obtain rfl : m.mdev s = md := Option.mem_unique hmd hs'
    exact nomatch (hoff f hfd hdev hf).symm.trans hen

end Mux

end Minibase.Vtmux
