import Minibase.Vtmux.Requests

/-!
# What is in the slots of vtmux

A device that is gone is marked by a device number of zero, and closed by the next `flush_mdevs`; a
slot that is not in use has that number as well, so that flushing is right just if there is none
(`Vtmux.Mux.flushedRight_iff`). A connection is closed where something is wrong with what is
received on it, and where it is hung up, but only the latter gives back its slot; if nothing goes
wrong without a hang-up, as many slots are taken as there are connections
(`Vtmux.Mux.taken_eq_clients`).
-/

namespace Minibase.Vtmux

namespace Mux

open List Option

variable {m m' : Mux} {s : ℕ}

/-! ### Devices that are gone -/

/-- One turn of the loop of `flush_mdevs`, with the descriptors that were closed. -/
def logMdev (r : List ℤ × Mux) (s : ℕ) : List ℤ × Mux :=
  if (r.2.mdev s).dev = 0 then (r.1 ++ [(r.2.mdev s).fd],
    (r.2.sysClose (r.2.mdev s).fd).freeMdevSlot s) else r

/-- `flush_mdevs`, with the descriptors that were closed. -/
def flushLog (m : Mux) : List ℤ × Mux := (range m.mdevs.length).foldl logMdev ([], m)

/-- What `flush_mdevs` closes. -/
def closes (m : Mux) : List ℤ := (flushLog m).1

/-- A device that was opened, in a slot that is marked as gone. -/
def Gone (m : Mux) (s : ℕ) : Prop := (m.mdev s).dev = 0 ∧ m.use (m.mdev s).fd = some
    (.dev s (m.mdev s).file)

/-- **Flushing closes what is gone**: the descriptors of these devices, each once, and no others.
Their slots are free then, and all others are as they were. -/
structure FlushedRight (m : Mux) : Prop where
  gone : ∀ fd, fd ∈ m.closes ↔ ∃ s, m.Gone s ∧ (m.mdev s).fd = fd
  once : m.closes.Nodup
  freed : ∀ s, m.Gone s → (m.flushMdevs.mdev s).nonzero = false
  kept : ∀ (s : ℕ) (md : Mdev), m.mdevs[s]? = some md → md.dev ≠ 0 →
    m.flushMdevs.mdevs[s]? = some md

/-- The slots that `flush_mdevs` takes for gone. -/
def marked (m : Mux) (n : ℕ) : List ℕ := (range n).filter fun s => (m.mdev s).dev = 0

/-- How far flushing has got. -/
structure FlushedTo (m : Mux) (n : ℕ) (r : List ℤ × Mux) : Prop where
  closed : r.1 = (m.marked n).map fun s => (m.mdev s).fd
  state : r.2 = (range n).foldl flushMdev m
  rest : ∀ s, n ≤ s → (r.2.mdev s).fd = (m.mdev s).fd ∧ (r.2.mdev s).dev = (m.mdev s).dev
  freed : ∀ s < n, (m.mdev s).dev = 0 → (r.2.mdev s).nonzero = false
  kept : ∀ (s : ℕ) (md : Mdev), m.mdevs[s]? = some md → md.dev ≠ 0 → r.2.mdevs[s]? = some md

lemma nonzero_congr {md md' : Mdev} (h : md.fd = md'.fd ∧ md.tty = md'.tty ∧ md.dev = md'.dev) :
    md.nonzero = md'.nonzero := by
  rw [Mdev.nonzero, Mdev.nonzero, h.1, h.2.1, h.2.2]

lemma logMdev_eq (m : Mux) (l : List ℤ) (s : ℕ) :
    logMdev (l, m) s = (l ++ if (m.mdev s).dev = 0 then [(m.mdev s).fd] else [],
      m.flushMdev s) := by
  unfold logMdev flushMdev
  split_ifs
  · rfl
  · rw [append_nil]

/-- One turn of the loop. -/
theorem FlushedTo.next {n : ℕ} {r : List ℤ × Mux} (h : m.FlushedTo n r) : m.FlushedTo (n + 1)
    (logMdev r n) := by
  obtain ⟨l, m1⟩ := r
  obtain ⟨hclosed, hstate, hrest, hfreed, hkept⟩ := h
  dsimp only at hclosed hstate hrest hfreed hkept
  obtain ⟨hfd, hdev⟩ := hrest n le_rfl
  rw [logMdev_eq, hfd, hdev]
  refine ⟨?_, ?_, fun s hs => ?_, fun s hs hgone => ?_, fun s md hs hlive => ?_⟩
  · show l ++ _ = _
    rw [marked, range_succ, filter_append, map_append, hclosed, marked]
    by_cases hzero : (m.mdev n).dev = 0
    · simp [hzero]
    · simp [hzero]
  · show m1.flushMdev n = _
    rw [range_succ, foldl_append, ← hstate]
    rfl
  · obtain ⟨hfd', -, hdev'⟩ := flushMdev_mdev m1 (show s ≠ n by omega)
    exact ⟨hfd'.trans (hrest s (by omega)).1, hdev'.trans (hrest s (by omega)).2⟩
  · rcases Nat.lt_succ_iff_lt_or_eq.mp hs with hlt | rfl
    · rw [← hfreed s hlt hgone]
      exact nonzero_congr (flushMdev_mdev m1 (by omega))
    · show ((m1.flushMdev s).mdev s).nonzero = false
      rw [flushMdev, if_pos (hdev.trans hgone), (freeMdevSlot_mdev _ s s).1 rfl]
      rfl
  · have hold := hkept s md hs hlive
    show (m1.flushMdev n).mdevs[s]? = _
    unfold flushMdev
    split_ifs with hzero
    · refine (freeSlot_spec Mdev.nonzero {} (m1.sysClose (m1.mdev n).fd).mdevs n).2 s md ?_ ?_ ?_
      · rw [(sysClose_frame m1 _).1, hold]
      · simp [Mdev.nonzero, hlive]
      · rintro rfl
        rw [mdev_eq hold] at hzero
        exact hlive hzero
    · exact hold

/-- **What is closed**: what is written in the slots with no device number, one after the other. -/
theorem flushLog_spec (m : Mux) : m.FlushedTo m.mdevs.length (flushLog m) :=
  loop_invariant (P := fun n r => m.FlushedTo n r)
    ⟨rfl, rfl, fun _ _ => ⟨rfl, rfl⟩, nofun, fun _ _ hs _ => hs⟩ fun _ _ _ h => h.next

lemma snd_flushLog (m : Mux) : (flushLog m).2 = m.flushMdevs := (flushLog_spec m).state

lemma mem_closes {fd : ℤ} : fd ∈ m.closes ↔ ∃ s < m.mdevs.length, (m.mdev s).dev = 0 ∧
    (m.mdev s).fd = fd := by
  rw [closes, (flushLog_spec m).closed, marked]
  simp only [List.mem_map, mem_filter, mem_range, decide_eq_true_eq, and_assoc]

/-- A slot that is counted, in a table where all are in use, has a descriptor of its own. -/
theorem Owned.gone {heard : Prop} (h : m.Owned True heard) (hdense : m.Dense)
    (hs : s < m.mdevs.length)
    (hdev : (m.mdev s).dev = 0) : m.Gone s := by
  have hmd : m.mdevs[s]? = some (m.mdev s) := by
    rw [Mux.mdev, getD_eq_getElem?_getD, getElem?_eq_getElem hs, getD_some]
  have hslot := h.mdev s
  exact ⟨hdev, hslot.fd (hslot.filled trivial (hdense _ (mem_of_getElem? hmd)))⟩

/-- What is gone is in a slot that is counted, as long as zero is what it was. -/
theorem Owned.gone_lt {heard : Prop} (h : m.Owned True heard) (hgone : m.Gone s) :
    s < m.mdevs.length := by
  by_contra hs
  have hnone : m.mdev s = {} := by
    rw [Mux.mdev, getD_eq_getElem?_getD, getElem?_eq_none_iff.mpr (by omega), getD_none]
  have huse := hgone.2
  rw [hnone, h.zero trivial] at huse
  cases huse

/-- **Flushing is right just if every slot is in use**, in every run in which this was so at the
flushes before. -/
theorem flushedRight_iff (h : Reach Mux.Starts Mux.step Mux.Full m) : m.FlushedRight ↔ m.Dense := by
  have howned : m.Owned True False :=
    h.invariant (fun _ => owned_start) fun _ _ _ hs hok hstep => hs.step (fun _ => hok) nofun hstep
  have hspec := flushLog_spec m
  constructor
  · intro hright md hmd
    by_contra hfree
    obtain ⟨s, hs⟩ := mem_iff_getElem?.mp hmd
    obtain ⟨hfd, -, hdev⟩ := free_mdev (Bool.not_eq_true _ ▸ hfree)
    have hlt := (List.getElem?_eq_some_iff.mp hs).1
    -- zero is closed for this slot, and it is no device
    have hclosed : (0 : ℤ) ∈ m.closes := mem_closes.mpr
      ⟨s, hlt, by rw [mdev_eq hs, hdev], by rw [mdev_eq hs, hfd]⟩
    obtain ⟨s', hgone, hzero⟩ := (hright.gone 0).mp hclosed
    have huse := hgone.2
    rw [hzero, howned.zero trivial] at huse
    cases huse
  · intro hdense
    refine ⟨fun fd => ?_, ?_, fun s hgone => ?_, fun s md hs hdev => ?_⟩
    · rw [mem_closes]
      constructor
      · rintro ⟨s, hs, hdev, hfd⟩
        exact ⟨s, howned.gone hdense hs hdev, hfd⟩
      · rintro ⟨s, hgone, hfd⟩
        exact ⟨s, howned.gone_lt hgone, hgone.1, hfd⟩
    · rw [closes, hspec.closed]
      refine List.Nodup.map_on (fun s hs s' hs' hsame => ?_) (nodup_range.filter _)
      simp only [marked, mem_filter, mem_range, decide_eq_true_eq] at hs hs'
      have huse := (howned.gone hdense hs.1 hs.2).2
      rw [hsame, (howned.gone hdense hs'.1 hs'.2).2] at huse
      exact (Use.dev.inj (Option.some.inj huse)).1.symm
    · rw [← snd_flushLog]
      exact hspec.freed s (howned.gone_lt hgone) hgone.1
    · rw [← snd_flushLog]
      exact hspec.kept s md hs hdev

/-- A session asks for the keyboard, and another one is switched to. -/
def disengaged : Mux :=
  ((pinned23.dispatchCmd (.switch 2) (fine 100 pid_100)).reqOpen 0 (device event0)).dispatchCmd
    (.switch 3)
    (fine 101 pid_101)

/-- The keyboard is closed, and nothing else. -/
theorem flushedRight_disengaged : disengaged.closes = [7] ∧ disengaged.FlushedRight := by
  have hstart : pinned23.Starts := ⟨1, 1, _, rfl⟩
  have hspawn : pinned23.step (.command (.switch 2) (fine 100 (by decide))) = some _ := rfl
  have hopen : Mux.step (pinned23.dispatchCmd (.switch 2) (fine 100 (by decide)))
    (.request 0 (device event0)) =
    some _ := rfl
  have hswitch : Mux.step ((pinned23.dispatchCmd (.switch 2) (fine 100 (by decide))).reqOpen 0
    (device event0))
    (.command (.switch 3) (fine 101 (by decide))) = some disengaged := rfl
  have hfull {m : Mux} {cmd : Cmd} {sys : Sys} : m.Full (.command cmd sys) := trivial
  have hrequest {m : Mux} {o : Opening} : m.Full (.request 0 o) := trivial
  have hdense : disengaged.Dense := by
    have hall : (disengaged.mdevs.all fun md => md.nonzero) = true := by decide
    exact all_eq_true.mp hall
  exact ⟨by decide, (flushedRight_iff
    (.next (.next (.next (.start hstart) hfull hspawn) hrequest hopen) hfull hswitch)).mpr hdense⟩

/-- The same after the session has asked for something that is not there. -/
def holed : Mux :=
  (((pinned23.dispatchCmd (.switch 2) (fine 100 pid_100)).reqOpen 0 (device event0)).reqOpen 0
    missing).dispatchCmd
    (.switch 3) (fine 101 pid_101)

/-- **Flushing is not always right**: it closes standard input here. -/
theorem not_flushedRight : ¬∀ m : Mux, Reach Mux.Starts Mux.step (fun _ _ => True) m →
    m.mdevreq = true →
    m.FlushedRight := by
  intro h
  have hstart : pinned23.Starts := ⟨1, 1, _, rfl⟩
  have hspawn : pinned23.step (.command (.switch 2) (fine 100 (by decide))) = some _ := rfl
  have hopen : Mux.step (pinned23.dispatchCmd (.switch 2) (fine 100 (by decide)))
    (.request 0 (device event0)) =
    some _ := rfl
  have hmissing : Mux.step ((pinned23.dispatchCmd (.switch 2) (fine 100 (by decide))).reqOpen 0
    (device event0))
    (.request 0 missing) = some _ := rfl
  have hswitch : Mux.step (((pinned23.dispatchCmd (.switch 2) (fine 100 (by decide))).reqOpen 0
    (device event0)).reqOpen 0 missing) (.command (.switch 3) (fine 101 (by decide))) =
      some holed := rfl
  have hright := h holed (((((Reach.start hstart).next trivial hspawn).next trivial hopen).next
    trivial
    hmissing).next trivial hswitch) (by decide)
  obtain ⟨s, hgone, hzero⟩ := (hright.gone 0).mp (by decide)
  have huse := hgone.2
  rw [hzero, show holed.use 0 = some .other from by decide] at huse
  cases huse

/-! ### Connections -/

/-- `check_conn`, where something may be received on the connection: a command or not, and something
with which anything is wrong, the reply included; and it may be hung up. -/
def checkConn (m : Mux) (j : ℕ) (cmd : Option (Cmd × Sys)) (bad hup : Bool) : Mux :=
  let m := match cmd with
    | some (cmd, sys) => m.dispatchCmd cmd sys
    | none => m
  let m := if bad then m.closeConn j else m
  if hup then m.clearConn j else m

/-- `accept_ctrl`, for one connection: one that gets descriptor zero is in no slot. -/
def acceptConn (m : Mux) : Mux :=
  if (m.openFd .other).1 ≤ 0 then (m.openFd (.conn NCONNS)).2 else m.acceptCtrl

/-- What happens, with all that is done for a connection at a time. -/
inductive Turn
  | event (e : Event)
  | conn (j : ℕ) (cmd : Option (Cmd × Sys)) (bad hup : Bool)

/-- What is done about it. -/
def turn (m : Mux) : Turn → Option Mux
  | .event (.drop _) => none
  | .event (.clear _) => none
  | .event .accept => if 0 < m.ctrlfd then some m.acceptConn else none
  | .event e => m.step e
  | .conn j cmd bad hup => if 0 < (m.conns.getD j {}).fd then some
    (m.checkConn j cmd bad hup) else none

/-- The slots that `grab_conn_slot` does not hand out. -/
def taken (m : Mux) : List ℕ := (range m.conns.length).filter fun j => (m.conns.getD j {}).nonzero

/-- A descriptor is for a connection. -/
def isConn : Option Use → Bool
  | some (.conn _) => true
  | _ => false

/-- The connections that are open. -/
def clients (m : Mux) : List ℕ := (range m.fds.length).filter fun n => isConn (m.fds.get n)

/-- **Nothing goes wrong without a hang-up**, and no connection gets descriptor zero. -/
def Heard (m : Mux) : Turn → Prop
  | .conn _ _ bad hup => bad = true → hup = true
  | .event .accept => m.use 0 ≠ none
  | _ => True

/-- What switches leaves the connections alone. -/
theorem steady_conns (conns : List Conn) : Steady fun m => m.conns = conns where
  mark _ _ _ h := h
  activate {m} tty sys h := by
    obtain ⟨activetty, mdevs, files, mdevreq, heq⟩ := activate_onlyDevices m tty sys
    rw [heq]
    exact h
  grab _ h := h
  start {m i} tty sys _ h := by
    rcases startCmdOn_eq m i tty sys with ⟨fds, -, heq⟩ | ⟨fds, vt, sessions, -, heq⟩
    · rw [heq]
      exact h
    · rw [heq]
      exact h
  free _ h := h

/-- What is done twice about a connection is done once. -/
theorem closeConn_clearConn (m : Mux) {j : ℕ} (hused : (m.conns.getD j {}).fd ≠ 0) :
    (m.closeConn j).clearConn j = m.clearConn j := by
  have hlt : j < m.conns.length := by
    by_contra hge
    rw [getD_eq_getElem?_getD, getElem?_eq_none_iff.mpr (by omega)] at hused
    exact hused rfl
  have hminus : ((m.closeConn j).conns.getD j {}).fd = -1 := by
    show ((m.conns.set j ⟨-1⟩).getD j {}).fd = -1
    rw [List.getD_eq_getElem?_getD, List.getElem?_set, if_pos rfl, if_pos hlt]
    rfl
  unfold clearConn
  rw [hminus]
  unfold closeConn sysClose
  rw [if_pos (by decide), set_set]

/-- A turn keeps what is written in the slots. -/
theorem Owned.turn (h : m.Owned False True) {t : Turn} (hok : m.Heard t)
    (hstep : m.turn t = some m') : m'.Owned False True := by
  cases t with
  | conn j cmd bad hup =>
    obtain ⟨hfd, hm⟩ := ite_none_right_eq_some.mp hstep
    cases hm
    unfold checkConn
    have h1 : (match cmd with
        | some (cmd, sys) => m.dispatchCmd cmd sys
        | none => m).Owned False True ∧ (match cmd with
        | some (cmd, sys) => m.dispatchCmd cmd sys
        | none => m).conns = m.conns := by
      rcases cmd with _ | ⟨cmd, sys⟩
      · exact ⟨h, rfl⟩
      · exact ⟨owned_lasting.dispatchCmd h cmd sys, (steady_conns m.conns).dispatchCmd rfl cmd sys⟩
    generalize (match cmd with
        | some (cmd, sys) => m.dispatchCmd cmd sys
        | none => m) = m1 at h1 ⊢
    obtain ⟨h1, hconns⟩ := h1
    have hused : (m1.conns.getD j {}).fd ≠ 0 := by
      rw [hconns]
      exact hfd.ne'
    have hcleared := h1.setConn j hused le_rfl fun _ => rfl
    cases bad with
    | false =>
      cases hup with
      | false => exact h1
      | true => exact hcleared
    | true =>
      rw [hok rfl, if_pos rfl, if_pos rfl, closeConn_clearConn m1 hused]
      exact hcleared
  | event e =>
    cases e with
    | drop j => cases hstep
    | clear j => cases hstep
    | accept =>
      obtain ⟨hfd, hm⟩ := ite_none_right_eq_some.mp hstep
      cases hm
      have hpos : ¬(m.openFd .other).1 ≤ 0 := by
        have hnonneg := openFd_nonneg m .other
        intro hle
        have hzero : (m.openFd .other).1 = 0 := by omega
        have hbefore := use_openFd_before m .other
        rw [hzero] at hbefore
        exact hok hbefore
      rw [acceptConn, if_neg hpos]
      exact h.acceptCtrl
    | command cmd sys => exact h.step (e := .command cmd sys) False.elim (fun _ _ => nofun) hstep
    | request i o => exact h.step (e := .request i o) False.elim (fun _ _ => nofun) hstep
    | hangup i => exact h.step (e := .hangup i) False.elim (fun _ _ => nofun) hstep
    | enter i sys => exact h.step (e := .enter i sys) False.elim (fun _ _ => nofun) hstep
    | reap shutdown deaths sys =>
      exact h.step (e := .reap shutdown deaths sys) False.elim (fun _ _ => nofun) hstep
    | lost => exact h.step (e := .lost) False.elim (fun _ _ => nofun) hstep
    | flush => exact h.step (e := .flush) False.elim (fun _ _ => nofun) hstep

/-- The connections that are open are those in the slots that are taken. -/
theorem Owned.perm_clients {whole : Prop} (h : m.Owned whole True) :
    (m.taken.map fun j => (m.conns.getD j {}).fd.toNat).Perm m.clients := by
  have hslot {j : ℕ} (hj : j ∈ m.taken) : 0 < (m.conns.getD j {}).fd ∧
    m.use (m.conns.getD j {}).fd = some (.conn j) := by
    obtain ⟨hlt, hused⟩ := mem_filter.mp hj
    rw [mem_range] at hlt
    have hcn : m.conns[j]? = some (m.conns.getD j {}) := by
      rw [getD_eq_getElem?_getD, getElem?_eq_getElem hlt, getD_some]
    have hne : (m.conns.getD j {}).fd ≠ 0 := of_decide_eq_true hused
    have hnonneg := h.hears trivial _ (mem_of_getElem? hcn)
    have hpos : 0 < (m.conns.getD j {}).fd := by omega
    exact ⟨hpos, h.conns j _ hcn hpos⟩
  refine (perm_ext_iff_of_nodup ?_ (nodup_range.filter _)).mpr fun n => ?_
  · refine List.Nodup.map_on (fun j hj j' hj' hsame => ?_) (nodup_range.filter _)
    obtain ⟨hpos, huse⟩ := hslot hj
    obtain ⟨hpos', huse'⟩ := hslot hj'
    have hfd : (m.conns.getD j {}).fd = (m.conns.getD j' {}).fd := by omega
    rw [hfd, huse'] at huse
    exact (Use.conn.inj (Option.some.inj huse)).symm
  · constructor
    · intro hn
      obtain ⟨j, hj, rfl⟩ := mem_map.mp hn
      obtain ⟨hpos, huse⟩ := hslot hj
      rw [use, if_neg (by omega)] at huse
      refine mem_filter.mpr ⟨mem_range.mpr ?_, by rw [huse]; rfl⟩
      by_contra hge
      rw [Table.get, getD_eq_getElem?_getD, getElem?_eq_none_iff.mpr (by omega)] at huse
      cases huse
    · intro hn
      obtain ⟨-, hconn⟩ := mem_filter.mp hn
      have huse : ∃ j, m.use n = some (.conn j) := by
        rw [use_natCast]
        generalize m.fds.get n = u at hconn
        rcases u with _ | u
        · cases hconn
        · cases u with
          | conn j => exact ⟨j, rfl⟩
          | other => cases hconn
          | ctrl => cases hconn
          | tty i => cases hconn
          | ctl i => cases hconn
          | dev s k => cases hconn
      obtain ⟨j, huse⟩ := huse
      obtain ⟨hpos, cn, hcn, hfd⟩ := h.back n j huse
      have hget : m.conns.getD j {} = cn := by rw [getD_eq_getElem?_getD, hcn, getD_some]
      refine mem_map.mpr ⟨j, mem_filter.mpr ⟨mem_range.mpr ?_, ?_⟩, ?_⟩
      · exact (List.getElem?_eq_some_iff.mp hcn).1
      · have hne : cn.fd ≠ 0 := by omega
        rw [hget]
        simp [Conn.nonzero, hne]
      · rw [hget, hfd, Int.toNat_natCast]

/-- **The slots that are taken are as many as the connections that are open**, in every run in which
nothing goes wrong without a hang-up. -/
theorem taken_eq_clients (h : Reach Mux.Starts Mux.turn Mux.Heard m) :
    m.taken.length = m.clients.length := by
  have howned : m.Owned False True :=
    h.invariant (fun _ => owned_start) fun _ _ _ hs hok hstep => hs.turn hok hstep
  rw [← howned.perm_clients.length_eq, length_map]

instance (m : Mux) : ∀ t, Decidable (m.Heard t)
  | .conn _ _ bad hup => inferInstanceAs (Decidable (bad = true → hup = true))
  | .event .accept => inferInstanceAs (Decidable (m.use 0 ≠ none))
  | .event (.command ..) => inferInstanceAs (Decidable True)
  | .event (.request ..) => inferInstanceAs (Decidable True)
  | .event (.hangup _) => inferInstanceAs (Decidable True)
  | .event (.enter ..) => inferInstanceAs (Decidable True)
  | .event (.reap ..) => inferInstanceAs (Decidable True)
  | .event (.drop _) => inferInstanceAs (Decidable True)
  | .event (.clear _) => inferInstanceAs (Decidable True)
  | .event .lost => inferInstanceAs (Decidable True)
  | .event .flush => inferInstanceAs (Decidable True)

/-- Two clients come, the first has a session shown that hangs up, the second sends what nothing
can be made of and is gone, and another one comes. -/
def clientsInTurn : List Turn :=
  [.event .accept, .event .accept, .conn 0 (some (.switch 2, fine 100 pid_100)) false false,
    .event (.hangup 0), .conn 1 none true true, .event .accept]

theorem taken_eq_clients_in_turn : ∃ m, clientsInTurn.foldlM turn pinned23 = some m ∧
    m.clients = [5, 6] ∧ m.taken.length = m.clients.length := by
  have hstart : pinned23.Starts := ⟨1, 1, _, rfl⟩
  have hrun : clientsInTurn.foldlM (fun m t => if m.Heard t then m.turn t else none) pinned23 =
    some _ := rfl
  exact ⟨_, rfl, by decide, taken_eq_clients (Reach.foldlM (.start hstart) hrun)⟩

/-- **A slot is lost** with every message that nothing can be made of, while the client goes on. -/
theorem not_taken_eq_clients : ¬∀ m : Mux, Reach Mux.Starts Mux.turn (fun _ _ => True) m →
    m.taken.length = m.clients.length := by
  intro h
  have hstart : pinned23.Starts := ⟨1, 1, _, rfl⟩
  have haccept : pinned23.turn (.event .accept) = some pinned23.acceptConn := rfl
  have hbad : pinned23.acceptConn.turn (.conn 0 none true false) = some
    (pinned23.acceptConn.checkConn 0 none true false) :=
    rfl
  have heq := h _ (.next (.next (.start hstart) trivial haccept) trivial hbad)
  exact absurd heq (by decide)

end Mux

end Minibase.Vtmux
