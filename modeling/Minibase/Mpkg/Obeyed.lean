import Minibase.Mpkg.Rules

/-!
# When the install policy is obeyed

Pass rules are to let a package through if they cover all of it, deny rules to stop one that has
something at or below a denied path, skip rules to leave out what is at or below a skipped one;
every rule is about its own path only, and every rule counts (`Mpkg.Obeyed`, `Mpkg.obeyed_iff`).

Pass rules work as long as their paths are clean in the package and none but the last leaves
a depth behind, on which the next one gives up. A deny rule is packed with the sign bit of
its length, and no rule after it is ever applied; it is also taken for a pass rule by
`update_policy`, so that no package gets through. Skip rules are refused as invalid.
-/

namespace Minibase.Mpkg

open List

/-! ### Lists of rules -/

def MAXCONF : ℕ := 65536

/-- A path of a rule, as `common_path` takes it. -/
structure RulePath where
  text : List UInt8
  nonempty : text ≠ []
  relative : text.head? ≠ some 47
  short : text.length < 4096
  noNul : 0 ∉ text

/-- The names of the path. -/
def RulePath.comps (p : RulePath) : List Name := compsOf (pieces 47 p.text).1 (pieces 47 p.text).2

/-- A rule of a group. -/
structure Rule where
  kind : Kind
  path : RulePath

/-- The line of a rule. -/
def Rule.line (r : Rule) : Kind × List UInt8 := (r.kind, r.path.text)

/-- Rules that were parsed, from a configuration they fit into, each on a line with a keyword
of four letters. -/
structure RuleList where
  rules : List Rule
  fits : (rules.map fun r => r.path.text.length + 6).sum ≤ MAXCONF
  packed : Rules
  parsed : loadRules ⟨[], .passAll⟩ (rules.map Rule.line) = .ok packed

/-- An index as `load_pacfile` leaves it, with proper names and no path twice. -/
structure PacIndex where
  nodes : List Node
  leveled : Leveled 0 nodes
  loaded : ∀ nd ∈ nodes, Loaded nd
  valid : checkNames nodes = .ok ()
  distinct : Distinct nodes
  nonempty : nodes ≠ []

/-! ### What the rules ask for -/

section Spec

variable (idx : PacIndex)

/-- A rule is about an entry. -/
def About (r : Rule) (x : List Name × Node) : Prop := Covered idx.nodes r.path.comps x

/-- Some rule of a kind is about an entry. -/
def AboutSome (rules : List Rule) (kind : Kind) (x : List Name × Node) : Prop :=
  ∃ r ∈ rules, r.kind = kind ∧ About idx r x

/-- An entry is at or below the path of a rule. -/
def Under (rules : List Rule) (x : List Name × Node) : Prop :=
  ∃ r ∈ rules, r.path.comps <+: pathOf x

/-- The marked nodes are those with a property. -/
def Marked (b : List Node) (Q : List Name × Node → Prop) : Prop :=
  ∀ (t : ℕ) (x : List Name × Node) (nd : Node), (placed [] idx.nodes)[t]? = some x →
    b[t]? = some nd → (nd.mark = true ↔ Q x)

/-- The nodes are marked as needed or denied by exactly the rules that are about them. -/
def AllApplied (rules : List Rule) (b : List Node) : Prop :=
  ∀ (t : ℕ) (x : List Name × Node) (nd : Node), (placed [] idx.nodes)[t]? = some x →
    b[t]? = some nd →
    (nd.mark = true ↔ ∃ r ∈ rules, About idx r x) ∧
    (nd.need = true ↔ AboutSome idx rules .pass x) ∧
    (nd.deny = true ↔ AboutSome idx rules .deny x)

/-- What `check_index` should come to. With only pass rules, and at least one: it succeeds
if and only if everything is covered, and then everything is needed. With only deny rules: it
fails if and only if something is at or below a denied path, and otherwise everything is
needed. With only skip rules: what is at or below a skipped path is not needed, everything
else is. -/
structure Decides (rules : List Rule) (r : Except Stop (List Node)) : Prop where
  pass : rules ≠ [] → (∀ rule ∈ rules, rule.kind = .pass) →
    ((∃ b, r = .ok b) ↔ ∀ x ∈ placed [] idx.nodes, ∃ rule ∈ rules, About idx rule x) ∧
    ∀ b, r = .ok b → ∀ nd ∈ b, nd.need = true
  deny : (∀ rule ∈ rules, rule.kind = .deny) →
    ((∃ b, r = .ok b) ↔ ¬∃ x ∈ placed [] idx.nodes, Under rules x) ∧
    ∀ b, r = .ok b → ∀ nd ∈ b, nd.need = true
  skip : (∀ rule ∈ rules, rule.kind = .skip) → ∃ b, r = .ok b ∧
    ∀ (t : ℕ) (x : List Name × Node) (nd : Node), (placed [] idx.nodes)[t]? = some x →
      b[t]? = some nd → (nd.need = true ↔ ¬Under rules x)

/-- **The rules are obeyed.** -/
structure Obeyed (rl : RuleList) : Prop where
  /-- Each rule is about its own path, and nothing else. -/
  each : ∀ r ∈ rl.rules, ∃ b d, markPath r.kind idx.nodes 0 r.path.text = .ok (b, d) ∧
    Marked idx b (About idx r)
  /-- All rules are applied. -/
  all : ∃ b, applyRules rl.packed.paths idx.nodes = .ok b ∧ AllApplied idx rl.rules b
  /-- The package is let through as they say. -/
  decides : Decides idx rl.rules (checkIndex rl.packed idx.nodes)

/-- The path of the rule is clean in the package. -/
def CleanRule (r : Rule) : Prop :=
  Clean idx.nodes [] (pieces 47 r.path.text).1 (pieces 47 r.path.text).2

/-- The rule leaves no depth behind. -/
def ReturnsRule (r : Rule) : Prop := Returns idx.nodes [] (pieces 47 r.path.text).1

/-- The rules that come after a deny rule ask for nothing new, and if there are only deny
rules the package has something to deny. -/
def Futile (before : List Rule) (r : Rule) (rest : List Rule) : Prop :=
  (∀ q ∈ rest, ∀ x ∈ placed [] idx.nodes, About idx q x → AboutSome idx (before ++ [r]) q.kind x) ∧
  ((∀ q ∈ before ++ r :: rest, q.kind = .deny) → Listed idx.nodes r.path.comps)

/-- **When the rules are obeyed**: there are none; or none are skip rules, all paths are
clean, and either there are only pass rules, of which none but the last leaves a depth
behind; or the first deny rule is reached, as the pass rules before it leave no depth behind,
and the rules after it are futile. -/
def Workable (rules : List Rule) : Prop :=
  rules = [] ∨
  ((∀ r ∈ rules, r.kind ≠ .skip ∧ CleanRule idx r) ∧
    (((∀ r ∈ rules, r.kind = .pass) ∧ ∀ r ∈ rules.dropLast, ReturnsRule idx r) ∨
      ∃ before r rest, rules = before ++ r :: rest ∧ r.kind = .deny ∧
        (∀ q ∈ before, q.kind = .pass ∧ ReturnsRule idx q) ∧ Futile idx before r rest))

end Spec

/-! ### The packed rules -/

section Packed

/-- The length of a rule as it is packed. -/
def Rule.need (r : Rule) : ℕ := roundUp4 (2 + r.path.text.length + 1)

/-- A rule as it is packed. -/
def Rule.pack (r : Rule) : List UInt8 :=
  le 2 (r.need + r.kind.flag) ++ r.path.text ++ replicate (r.need - 2 - r.path.text.length) 0

lemma Rule.need_bounds (r : Rule) :
    r.path.text.length + 3 ≤ r.need ∧ r.need ≤ r.path.text.length + 6 := by
  rw [Rule.need, roundUp4]
  omega

lemma Rule.length_pack (r : Rule) : r.pack.length = r.need := by
  have := r.need_bounds.1
  simp only [Rule.pack, length_append, length_le, length_replicate]
  omega

lemma commonPath_eq (area : List UInt8) (pol : Policy) (r : Rule) :
    commonPath ⟨area, pol⟩ r.path.text r.kind
      = (updatePolicy pol r.kind.flag).map fun pol => ⟨area ++ r.pack, pol⟩ := by
  have happ : appendRule area r.path.text r.kind.flag = .ok (area ++ r.pack) := by
    rw [appendRule]
    simp only [if_neg r.path.nonempty, if_neg (Nat.not_le.mpr r.path.short)]
    rfl
  simp only [commonPath, refuse, if_neg r.path.nonempty, if_neg r.path.relative, happ, bind,
    Except.bind]
  cases updatePolicy pol r.kind.flag <;> rfl

/-- A rule that was parsed and the policy after it. -/
theorem updatePolicy_ok {pol pol' : Policy} (kind : Kind)
    (h : updatePolicy pol kind.flag = .ok pol') :
    (kind = .skip ∧ pol' = .passRest ∧ pol ≠ .denyRest) ∨
      (kind ≠ .skip ∧ pol' = .denyRest ∧ pol ≠ .passRest) := by
  cases kind <;> cases pol <;> cases h <;> simp

/-- **Rules that were parsed** are packed one after the other, and skip rules are not among
others. -/
theorem loadRules_ok {rules : List Rule} {area : List UInt8} {pol : Policy} {rs : Rules}
    (h : loadRules ⟨area, pol⟩ (rules.map Rule.line) = .ok rs) :
    rs.paths = area ++ rules.flatMap Rule.pack ∧
      ((rules = [] ∧ rs.policy = pol) ∨
        (pol ≠ .denyRest ∧ rs.policy = .passRest ∧ ∀ r ∈ rules, r.kind = .skip) ∨
        (pol ≠ .passRest ∧ rs.policy = .denyRest ∧ ∀ r ∈ rules, r.kind ≠ .skip)) := by
  induction rules generalizing area pol with
  | nil =>
    cases h
    simp
  | cons r rules ih =>
    rw [map_cons, Rule.line, loadRules, commonPath_eq] at h
    cases hupd : updatePolicy pol r.kind.flag with
    | error f =>
      rw [hupd] at h
      cases h
    | ok pol' =>
      rw [hupd] at h
      obtain ⟨hpaths, hrest⟩ := ih h
      refine ⟨by rw [hpaths, flatMap_cons, append_assoc], .inr ?_⟩
      rcases updatePolicy_ok r.kind hupd with ⟨hkind, rfl, hpol⟩ | ⟨hkind, rfl, hpol⟩
      · left
        rcases hrest with ⟨rfl, hp⟩ | ⟨-, hp, hall⟩ | ⟨hne, -, -⟩
        · exact ⟨hpol, hp, forall_mem_singleton.mpr hkind⟩
        · exact ⟨hpol, hp, forall_mem_cons.mpr ⟨hkind, hall⟩⟩
        · exact absurd rfl hne
      · right
        rcases hrest with ⟨rfl, hp⟩ | ⟨hne, -, -⟩ | ⟨-, hp, hall⟩
        · exact ⟨hpol, hp, forall_mem_singleton.mpr hkind⟩
        · exact absurd rfl hne
        · exact ⟨hpol, hp, forall_mem_cons.mpr ⟨hkind, hall⟩⟩

lemma RuleList.packed_paths (rl : RuleList) : rl.packed.paths = rl.rules.flatMap Rule.pack :=
  (loadRules_ok rl.parsed).1

lemma leVal_le2 {v : ℕ} (hv : v < 65536) : leVal (le 2 v) = v := by
  simp only [le, leVal]
  simp only [UInt8.toNat_ofNat']
  omega

/-- The length word of a packed rule. -/
theorem hlenOf_pack (r : Rule) (rest : List UInt8) :
    hlenOf (r.pack ++ rest) = r.need + r.kind.flag +
      if r.kind = .pass then 0 else 0xFFFF0000 := by
  have hb := r.need_bounds
  have hs := r.path.short
  have htake : (r.pack ++ rest).take 2 = le 2 (r.need + r.kind.flag) := by
    rw [Rule.pack, append_assoc, append_assoc]
    exact take_left' (length_le _ _)
  have hflag : r.kind.flag ≤ 0xC000 := by cases r.kind <;> decide
  rw [hlenOf, htake, leVal_le2 (by omega)]
  cases r.kind
  · rw [if_pos (by simp only [Kind.flag]; omega), if_pos rfl]
    rfl
  · rw [if_neg (by simp only [Kind.flag]; omega), if_neg (by decide)]
  · rw [if_neg (by simp only [Kind.flag]; omega), if_neg (by decide)]

lemma flagOf_pack (r : Rule) (rest : List UInt8) :
    flagOf (hlenOf (r.pack ++ rest)) = r.kind.flag := by
  have hb := r.need_bounds
  have hs := r.path.short
  rw [hlenOf_pack, flagOf]
  cases r.kind
  · rw [if_pos rfl]
    simp only [Kind.flag]
    omega
  · rw [if_neg (by decide)]
    simp only [Kind.flag]
    omega
  · rw [if_neg (by decide)]
    simp only [Kind.flag]
    omega

/-- The path of a packed rule. -/
theorem text_pack (r : Rule) (rest : List UInt8) :
    ((r.pack ++ rest).drop 2).takeWhile (· ≠ 0) = r.path.text := by
  have hb := r.need_bounds.1
  have hdrop : (r.pack ++ rest).drop 2 = r.path.text ++
      (replicate (r.need - 2 - r.path.text.length) 0 ++ rest) := by
    rw [Rule.pack, append_assoc, append_assoc, drop_left' (length_le _ _)]
  have htext : ∀ b ∈ r.path.text, decide (b ≠ 0) = true := by
    intro b hb
    exact decide_eq_true fun h => r.path.noNul (h ▸ hb)
  obtain ⟨k, hk⟩ : ∃ k, r.need - 2 - r.path.text.length = k + 1 :=
    ⟨r.need - 2 - r.path.text.length - 1, by omega⟩
  rw [hdrop, takeWhile_append_of_pos htext, hk, replicate_succ, cons_append,
    takeWhile_cons]
  simp

end Packed

/-! ### Single rules -/

section Single

variable {idx : PacIndex} {r : Rule}

lemma PacIndex.map_bare (idx : PacIndex) : idx.nodes.map bare = idx.nodes := by
  rw [map_congr_left (g := id) ?_, map_id]
  intro nd hnd
  obtain ⟨hmark, hneed, hdeny, hexst, -⟩ := idx.loaded nd hnd
  cases nd
  cases hmark
  cases hneed
  cases hdeny
  cases hexst
  rfl

lemma RulePath.comps_ne_nil (p : RulePath) : p.comps ≠ [] := by
  rw [RulePath.comps, ne_eq, compsOf_eq_nil_iff]
  rintro ⟨hdirs, hlast⟩
  exact p.nonempty (pieces_eq_nil (Prod.ext hdirs hlast))

/-- What a rule is about, by position. -/
def AboutAt (idx : PacIndex) (r : Rule) (t : ℕ) : Prop :=
  ∃ x, (placed [] idx.nodes)[t]? = some x ∧ About idx r x

/-- Only the positions in the index matter. -/
theorem Painted.congr_of_lt {kind : Kind} {S T : ℕ → Prop} {a b : List Node}
    (h : Painted kind S a b) (hST : ∀ t < a.length, S t ↔ T t) : Painted kind T a b := by
  intro t
  by_cases ht : t < a.length
  · exact ⟨fun hT => (h t).1 ((hST t ht).mpr hT), fun hT => (h t).2 fun hS => hT ((hST t ht).mp hS)⟩
  · have hnone : a[t]? = none := getElem?_eq_none (Nat.le_of_not_lt ht)
    have hb : b[t]? = none := by
      by_cases hS : S t
      · rw [(h t).1 hS, hnone]
        rfl
      · rw [(h t).2 hS, hnone]
    rw [hnone, hb]
    exact ⟨fun _ => rfl, fun _ => rfl⟩

/-- On a fresh index the marked nodes are the painted ones. -/
theorem marked_iff_right {kind : Kind} {S : ℕ → Prop} {b : List Node}
    (h : Painted kind S idx.nodes b) (Q : List Name × Node → Prop) :
    Marked idx b Q ↔
      ∀ (t : ℕ) (x : List Name × Node), (placed [] idx.nodes)[t]? = some x → (S t ↔ Q x) := by
  have hmark : ∀ (t : ℕ) (x : List Name × Node), (placed [] idx.nodes)[t]? = some x →
      ∃ nd, b[t]? = some nd ∧ (nd.mark = true ↔ S t) := by
    intro t x hx
    have hlt : t < idx.nodes.length := by
      rw [← length_placed []]
      exact (List.getElem?_eq_some_iff.mp hx).1
    have hnd := List.getElem?_eq_getElem hlt
    by_cases hS : S t
    · refine ⟨setMark kind idx.nodes[t], ?_, fun _ => hS, fun _ => rfl⟩
      rw [(h t).1 hS, hnd]
      rfl
    · refine ⟨idx.nodes[t], (h t).2 hS ▸ hnd, ?_⟩
      rw [(idx.loaded _ (List.getElem_mem hlt)).mark]
      exact ⟨nofun, fun h => absurd h hS⟩
  constructor
  · intro hmarked t x hx
    obtain ⟨nd, hnd, hiff⟩ := hmark t x hx
    rw [← hiff]
    exact hmarked t x nd hx hnd
  · intro hright t x nd hx hnd
    obtain ⟨nd', hnd', hiff⟩ := hmark t x hx
    rw [hnd] at hnd'
    cases hnd'
    rw [hiff]
    exact hright t x hx

/-- **A clean rule** marks what it is about, on every copy of the index. -/
theorem CleanRule.marks (h : CleanRule idx r) :
    ∃ d, (d = 0 ↔ ReturnsRule idx r) ∧
      ∀ (kind : Kind) (copy : List Node), copy.map bare = idx.nodes →
        ∃ b, markPath kind copy 0 r.path.text = .ok (b, d) ∧
          Painted kind (AboutAt idx r) copy b := by
  rcases markFrom_outcome idx.leveled idx.distinct (pieces 47 r.path.text).1
    (pieces 47 r.path.text).2
    (start_root idx.leveled) with ⟨-, S, d, htouch, hright, hret⟩ | ⟨hnot, -⟩
  swap
  · exact absurd h hnot
  refine ⟨d, hret, ?_⟩
  intro kind copy hcopy
  obtain ⟨b, hb, hpaint⟩ := htouch kind copy hcopy
  refine ⟨b, hb, hpaint.congr_of_lt ?_⟩
  intro t ht
  have hlt : t < (placed [] idx.nodes).length := by
    rwa [length_placed, ← hcopy, length_map]
  have hx := getElem?_eq_getElem hlt
  rw [hright t _ hx]
  constructor
  · exact fun hc => ⟨_, hx, hc⟩
  · rintro ⟨y, hy, hc⟩
    rw [hx] at hy
    cases hy
    exact hc

/-- Any other rule ends the process or marks something else. -/
theorem not_marks_of_not_clean (h : ¬CleanRule idx r) (kind : Kind) :
    ¬∃ b d, markPath kind idx.nodes 0 r.path.text = .ok (b, d) ∧ Marked idx b (About idx r) := by
  rintro ⟨b, d, hb, hmarked⟩
  rcases markFrom_outcome idx.leveled idx.distinct (pieces 47 r.path.text).1
    (pieces 47 r.path.text).2
    (start_root idx.leveled) with ⟨hclean, -⟩ | ⟨-, hcrash | ⟨S, d', htouch, hright⟩⟩
  · exact h hclean
  · have hsegv : markPath kind idx.nodes 0 r.path.text = .error .segv :=
      hcrash kind idx.nodes idx.map_bare
    rw [hsegv] at hb
    cases hb
  · obtain ⟨b', hb', hpaint⟩ := htouch kind idx.nodes idx.map_bare
    have hsame : markPath kind idx.nodes 0 r.path.text = .ok (b', d') := hb'
    rw [hsame] at hb
    cases hb
    exact hright ((marked_iff_right hpaint _).mp hmarked)

end Single

/-! ### One rule after the other -/

section Apply

variable {idx : PacIndex} {rules : List Rule}

variable (k : ℕ)

lemma applyFrom_nil (a : List Node) (depth : ℕ) : applyFrom k [] a depth = .ok a := by
  cases k <;> rfl

/-- One round of `apply_rules`. -/
theorem applyFrom_pack (r : Rule) (area : List UInt8) (a : List Node) (depth : ℕ) :
    applyFrom (k + 1) (r.pack ++ area) a depth = (do
      let kind ← kindOf r.kind.flag
      let (b, d) ← markPath kind a depth r.path.text
      applyFrom k ((r.pack ++ area).drop
        (r.need + if r.kind = .pass then 0 else 0xFFFF0000)) b d) := by
  have hne : r.pack ++ area ≠ [] := by
    intro h
    have hlen := congrArg length h
    have hneed := r.need_bounds.1
    rw [length_append, r.length_pack, length_nil] at hlen
    omega
  have hsub : hlenOf (r.pack ++ area) - r.kind.flag
      = r.need + if r.kind = .pass then 0 else 0xFFFF0000 := by
    rw [hlenOf_pack]
    omega
  rw [applyFrom, if_neg hne]
  simp only [flagOf_pack, text_pack, hsub]

/-- A pass rule is applied, and the next one is where it ends. -/
theorem applyFrom_pass {r : Rule} (hkind : r.kind = .pass) (area : List UInt8) (a : List Node) :
    applyFrom (k + 1) (r.pack ++ area) a 0
      = markPath .pass a 0 r.path.text >>= fun bd => applyFrom k area bd.1 bd.2 := by
  rw [applyFrom_pack, hkind, if_pos rfl, add_zero, drop_left' r.length_pack]
  rfl

variable {area : List UInt8}

/-- After a deny rule comes nothing. -/
theorem applyFrom_deny {r : Rule} (hkind : r.kind = .deny)
    (hlen : area.length ≤ MAXCONF) (a : List Node) :
    applyFrom (k + 1) (r.pack ++ area) a 0 = (markPath .deny a 0 r.path.text).map Prod.fst := by
  have hdrop : (r.pack ++ area).drop (r.need + 0xFFFF0000) = [] := by
    rw [drop_eq_nil_iff, length_append, r.length_pack]
    rw [MAXCONF] at hlen
    omega
  rw [applyFrom_pack, hkind, if_neg (by decide), hdrop]
  show (markPath .deny a 0 r.path.text >>= fun bd => applyFrom k [] bd.1 bd.2) = _
  cases markPath .deny a 0 r.path.text with
  | error e => rfl
  | ok bd => exact applyFrom_nil k bd.1 bd.2

/-- Skip rules are not applied at all. -/
theorem applyFrom_skip {r : Rule} (hkind : r.kind = .skip) (area : List UInt8) (a : List Node)
    (b : List Node) : applyFrom (k + 1) (r.pack ++ area) a 0 ≠ .ok b := by
  rw [applyFrom_pack, hkind]
  exact nofun

/-- With a depth left behind there is no next rule. -/
theorem applyFrom_depth (hne : area ≠ []) (a : List Node) {d : ℕ} (hd : d ≠ 0)
    (b : List Node) : applyFrom (k + 1) area a d ≠ .ok b := by
  rw [applyFrom, if_neg hne]
  intro h
  obtain ⟨kind, -, h⟩ := ok_of_bind h
  have hmark : ∀ path, markPath kind a d path
      = .error (.fail ⟨some "non-zero initial depth", none, none⟩) := by
    intro path
    rw [markPath, refuse, if_pos hd]
    rfl
  rw [hmark] at h
  cases h

lemma length_le_length_packed (rules : List Rule) :
    rules.length ≤ (rules.flatMap Rule.pack).length := by
  induction rules with
  | nil => exact le_refl 0
  | cons r rules ih =>
    have := r.need_bounds.1
    rw [flatMap_cons, length_append, r.length_pack, length_cons]
    omega

lemma length_packed_le (rules : List Rule) :
    (rules.flatMap Rule.pack).length ≤ (rules.map fun r => r.path.text.length + 6).sum := by
  induction rules with
  | nil => exact le_refl 0
  | cons r rules ih =>
    have := r.need_bounds.2
    rw [flatMap_cons, length_append, r.length_pack, map_cons, sum_cons]
    omega

/-- Some of the rules is about a position. -/
def AboutAny (idx : PacIndex) (rules : List Rule) (t : ℕ) : Prop := ∃ r ∈ rules, AboutAt idx r t

/-- **Pass rules that return** are all applied. -/
theorem applyFrom_passes (hkind : ∀ r ∈ rules, r.kind = .pass)
    (hclean : ∀ r ∈ rules, CleanRule idx r) (hret : ∀ r ∈ rules, ReturnsRule idx r)
    (a : List Node) (ha : a.map bare = idx.nodes) :
    ∃ b, Painted .pass (AboutAny idx rules) a b ∧
      ∀ (k : ℕ) (area : List UInt8),
        applyFrom (k + rules.length) (rules.flatMap Rule.pack ++ area) a 0
          = applyFrom k area b 0 := by
  induction rules generalizing a with
  | nil =>
    refine ⟨a, (painted_refl .pass a).congr ?_, fun k area => rfl⟩
    intro t
    simp [AboutAny]
  | cons r rules ih =>
    obtain ⟨hkind, hkinds⟩ := forall_mem_cons.mp hkind
    obtain ⟨hclean, hcleans⟩ := forall_mem_cons.mp hclean
    obtain ⟨hret, hrets⟩ := forall_mem_cons.mp hret
    obtain ⟨d, hd, hmarks⟩ := hclean.marks
    obtain ⟨b, hb, hpaint⟩ := hmarks .pass a ha
    obtain ⟨c, hpaint', hrest⟩ := ih hkinds hcleans hrets b (hpaint.map_bare.trans ha)
    refine ⟨c, (hpaint.trans hpaint').congr ?_, ?_⟩
    · intro t
      rw [AboutAny, AboutAny, exists_mem_cons_iff]
    · intro k area
      rw [length_cons, ← add_assoc, flatMap_cons, append_assoc,
        applyFrom_pass _ hkind, hb, hd.mpr hret]
      exact hrest k area

/-- **A pass rule that does not return** is the last one. -/
theorem returns_of_applyFrom (hkind : ∀ r ∈ rules, r.kind = .pass)
    (hclean : ∀ r ∈ rules, CleanRule idx r) {a c : List Node} (ha : a.map bare = idx.nodes)
    (hne : area ≠ []) {k : ℕ}
    (h : applyFrom (k + 1 + rules.length) (rules.flatMap Rule.pack ++ area) a 0 = .ok c) :
    ∀ r ∈ rules, ReturnsRule idx r := by
  induction rules generalizing a with
  | nil => exact fun r hr => nomatch hr
  | cons r rules ih =>
    obtain ⟨hkind, hkinds⟩ := forall_mem_cons.mp hkind
    obtain ⟨hclean, hcleans⟩ := forall_mem_cons.mp hclean
    obtain ⟨d, hd, hmarks⟩ := hclean.marks
    obtain ⟨b, hb, hpaint⟩ := hmarks .pass a ha
    rw [length_cons, ← add_assoc, flatMap_cons, append_assoc,
      applyFrom_pass _ hkind, hb] at h
    have hne' : rules.flatMap Rule.pack ++ area ≠ [] := by
      intro h
      exact hne (append_eq_nil_iff.mp h).2
    have hzero : d = 0 := by
      by_contra hd
      rw [add_right_comm] at h
      exact applyFrom_depth _ hne' b hd c h
    rw [hzero] at h
    exact forall_mem_cons.mpr ⟨hd.mp hzero, ih hkinds hcleans (hpaint.map_bare.trans ha) h⟩

/-- What there is left of the rounds after some of the rules. -/
theorem rounds_left (before : List Rule) (r : Rule) (rest : List Rule) :
    ∃ k, ((before ++ r :: rest).flatMap Rule.pack).length = k + 1 + before.length := by
  have := length_le_length_packed (before ++ r :: rest)
  rw [length_append, length_cons] at this
  exact ⟨((before ++ r :: rest).flatMap Rule.pack).length - before.length - 1, by omega⟩

lemma applyRules_passes (hkind : ∀ r ∈ rules, r.kind = .pass)
    (hclean : ∀ r ∈ rules, CleanRule idx r) (hret : ∀ r ∈ rules.dropLast, ReturnsRule idx r) :
    ∃ b, applyRules (rules.flatMap Rule.pack) idx.nodes = .ok b ∧
      Painted .pass (AboutAny idx rules) idx.nodes b := by
  rcases eq_nil_or_concat rules with rfl | ⟨before, r, rfl⟩
  · refine ⟨idx.nodes, rfl, (painted_refl .pass _).congr ?_⟩
    intro t
    simp [AboutAny]
  · rw [concat_eq_append] at *
    rw [dropLast_concat] at hret
    rw [forall_mem_append] at hkind hclean
    obtain ⟨hkinds, hkind⟩ := hkind
    obtain ⟨hcleans, hclean⟩ := hclean
    have hmem := mem_singleton_self r
    obtain ⟨b, hpaint, hrest⟩ := applyFrom_passes hkinds hcleans hret idx.nodes idx.map_bare
    obtain ⟨d, -, hmarks⟩ := (hclean r hmem).marks
    obtain ⟨c, hc, hpaint'⟩ := hmarks .pass b (hpaint.map_bare.trans idx.map_bare)
    obtain ⟨k, hk⟩ := rounds_left before r []
    refine ⟨c, ?_, (hpaint.trans hpaint').congr ?_⟩
    · have hsplit : (before ++ [r]).flatMap Rule.pack
          = before.flatMap Rule.pack ++ (r.pack ++ []) := by
        simp
      rw [applyRules, hk, hsplit, hrest, applyFrom_pass k (hkind r hmem), hc]
      exact applyFrom_nil k c d
    · intro t
      simp only [AboutAny, mem_append, mem_singleton, or_and_right, exists_or,
        exists_eq_left]

lemma applyRules_to_deny {before rest : List Rule} {r : Rule}
    (hlen : (rest.flatMap Rule.pack).length ≤ MAXCONF)
    (hbefore : ∀ q ∈ before, q.kind = .pass ∧ ReturnsRule idx q)
    (hcleans : ∀ q ∈ before, CleanRule idx q) (hkind : r.kind = .deny)
    (hclean : CleanRule idx r) :
    ∃ b c, Painted .pass (AboutAny idx before) idx.nodes b ∧
      Painted .deny (AboutAny idx [r]) b c ∧
      applyRules ((before ++ r :: rest).flatMap Rule.pack) idx.nodes = .ok c := by
  obtain ⟨b, hpaint, hrest⟩ := applyFrom_passes (fun q hq => (hbefore q hq).1) hcleans
    (fun q hq => (hbefore q hq).2) idx.nodes idx.map_bare
  obtain ⟨d, -, hmarks⟩ := hclean.marks
  obtain ⟨c, hc, hpaint'⟩ := hmarks .deny b (hpaint.map_bare.trans idx.map_bare)
  obtain ⟨k, hk⟩ := rounds_left before r rest
  refine ⟨b, c, hpaint, hpaint'.congr ?_, ?_⟩
  · intro t
    simp [AboutAny]
  · rw [applyRules, hk, flatMap_append, flatMap_cons, hrest, applyFrom_deny k hkind hlen,
      hc]
    rfl

end Apply

/-! ### What comes of it -/

section Check

variable {idx : PacIndex} {rules : List Rule}

lemma aboutAny_iff {t : ℕ} {x : List Name × Node} (hx : (placed [] idx.nodes)[t]? = some x) :
    AboutAny idx rules t ↔ ∃ r ∈ rules, About idx r x := by
  constructor
  · rintro ⟨r, hr, y, hy, habout⟩
    rw [hx] at hy
    cases hy
    exact ⟨r, hr, habout⟩
  · rintro ⟨r, hr, habout⟩
    exact ⟨r, hr, x, hx, habout⟩

/-- The bits of a node after pass rules and deny rules. -/
theorem bits_of_painted {S T : ℕ → Prop} {b e : List Node} (hS : Painted .pass S idx.nodes b)
    (hT : Painted .deny T b e) {t : ℕ} {nd : Node} (hnd : e[t]? = some nd) :
    (nd.mark = true ↔ S t ∨ T t) ∧ (nd.need = true ↔ S t) ∧ (nd.deny = true ↔ T t) := by
  have hold : ∀ old, idx.nodes[t]? = some old →
      old.mark = false ∧ old.need = false ∧ old.deny = false := by
    intro old hget
    obtain ⟨hmark, hneed, hdeny, -⟩ := idx.loaded old (mem_of_getElem? hget)
    exact ⟨hmark, hneed, hdeny⟩
  by_cases hs : S t <;> by_cases ht : T t
  · rw [(hT t).1 ht, (hS t).1 hs] at hnd
    obtain ⟨mid, hmid, rfl⟩ := Option.map_eq_some_iff.mp hnd
    obtain ⟨old, hget, rfl⟩ := Option.map_eq_some_iff.mp hmid
    simp [setMark, hs, ht]
  · rw [(hT t).2 ht, (hS t).1 hs] at hnd
    obtain ⟨old, hget, rfl⟩ := Option.map_eq_some_iff.mp hnd
    simp [setMark, hs, ht, hold old hget]
  · rw [(hT t).1 ht, (hS t).2 hs] at hnd
    obtain ⟨old, hget, rfl⟩ := Option.map_eq_some_iff.mp hnd
    simp [setMark, hs, ht, hold old hget]
  · rw [(hT t).2 ht, (hS t).2 hs] at hnd
    simp [hs, ht, hold nd hnd]

/-- `check_nodes`, where what is not marked is denied. -/
theorem checkNodes_denyRest (c : List Node) :
    checkNodes .denyRest c = if ∀ nd ∈ c, nd.mark = true ∧ nd.deny = false then .ok c
      else .error (.fail ⟨some "unable to continue", none, none⟩) := by
  have hone : ∀ nd, (checkOne .denyRest nd).1 = nd ∧
      ((checkOne .denyRest nd).2 = true ↔ ¬(nd.mark = true ∧ nd.deny = false)) := by
    intro nd
    rw [checkOne]
    cases nd.mark <;> simp
  have hmap : c.map (fun nd => (checkOne .denyRest nd).1) = c := by
    rw [map_congr_left (g := id) fun nd _ => (hone nd).1, map_id]
  have hany : (c.map (checkOne .denyRest)).any Prod.snd = true ↔
      ¬∀ nd ∈ c, nd.mark = true ∧ nd.deny = false := by
    simp only [any_map, any_eq_true, Function.comp, (hone _).2]
    push Not
    rfl
  rw [checkNodes, hmap]
  by_cases h : ∀ nd ∈ c, nd.mark = true ∧ nd.deny = false
  · rw [if_pos h, if_neg (hany.not.mpr (not_not_intro h))]
  · rw [if_neg h, if_pos (hany.mpr h)]

lemma checkIndex_eq {rs : Rules} {c : List Node} (h : applyRules rs.paths idx.nodes = .ok c) :
    checkIndex rs idx.nodes = checkNodes rs.policy c := by
  rw [checkIndex, idx.valid, h]
  rfl

/-- A node and its entry. -/
theorem exists_placed {e : List Node} (hlen : e.length = idx.nodes.length) {nd : Node}
    (hnd : nd ∈ e) :
    ∃ (t : ℕ) (x : List Name × Node), (placed [] idx.nodes)[t]? = some x ∧ e[t]? = some nd := by
  obtain ⟨t, ht, rfl⟩ := mem_iff_getElem.mp hnd
  have hlt : t < (placed [] idx.nodes).length := by
    rw [length_placed]
    omega
  exact ⟨t, _, getElem?_eq_getElem hlt, getElem?_eq_getElem ht⟩

lemma exists_node {e : List Node} (hlen : e.length = idx.nodes.length) {x : List Name × Node}
    (hx : x ∈ placed [] idx.nodes) :
    ∃ (t : ℕ) (nd : Node), (placed [] idx.nodes)[t]? = some x ∧ e[t]? = some nd := by
  obtain ⟨t, ht, rfl⟩ := mem_iff_getElem.mp hx
  have hlt : t < e.length := by
    rw [length_placed] at ht
    omega
  exact ⟨t, _, getElem?_eq_getElem ht, getElem?_eq_getElem hlt⟩

/-- **What is decided once all rules are applied.** Pass rules let through what they cover;
deny rules let nothing through. -/
theorem decides_iff {rs : Rules} {c : List Node} (hne : rules ≠ [])
    (hskip : ∀ r ∈ rules, r.kind ≠ .skip) (hpol : rs.policy = .denyRest)
    (happly : applyRules rs.paths idx.nodes = .ok c) (hlen : c.length = idx.nodes.length)
    (hall : AllApplied idx rules c) :
    Decides idx rules (checkIndex rs idx.nodes) ↔
      ((∀ r ∈ rules, r.kind = .deny) → ∃ x ∈ placed [] idx.nodes, Under rules x) := by
  rw [checkIndex_eq happly, hpol, checkNodes_denyRest]
  obtain ⟨r₀, hr₀⟩ := exists_mem_of_ne_nil rules hne
  -- a marked node is marked by a rule of some kind
  have hdenied : (∀ r ∈ rules, r.kind = .deny) → ¬∀ nd ∈ c, nd.mark = true ∧ nd.deny = false := by
    intro hkind hok
    obtain ⟨nd, hnd⟩ := exists_mem_of_ne_nil c (by
      rw [← length_pos_iff, hlen, length_pos_iff]
      exact idx.nonempty)
    obtain ⟨t, x, hx, hget⟩ := exists_placed hlen hnd
    obtain ⟨hmark, -, hdeny⟩ := hall t x nd hx hget
    obtain ⟨r, hr, habout⟩ := hmark.mp (hok nd hnd).1
    have := hdeny.mpr ⟨r, hr, hkind r hr, habout⟩
    rw [(hok nd hnd).2] at this
    cases this
  constructor
  · intro hdec hkind
    by_contra hnone
    obtain ⟨b, hb⟩ := (hdec.deny hkind).1.mpr hnone
    rw [if_neg (hdenied hkind)] at hb
    cases hb
  · intro hunder
    refine ⟨?_, ?_, fun hkind => absurd (hkind r₀ hr₀) (hskip r₀ hr₀)⟩
    · intro _ hkind
      have hok : (∀ nd ∈ c, nd.mark = true ∧ nd.deny = false) ↔
          ∀ x ∈ placed [] idx.nodes, ∃ r ∈ rules, About idx r x := by
        constructor
        · intro hok x hx
          obtain ⟨t, nd, hx, hget⟩ := exists_node hlen hx
          exact (hall t x nd hx hget).1.mp (hok nd (mem_of_getElem? hget)).1
        · intro hcov nd hnd
          obtain ⟨t, x, hx, hget⟩ := exists_placed hlen hnd
          obtain ⟨hmark, -, hdeny⟩ := hall t x nd hx hget
          refine ⟨hmark.mpr (hcov x (mem_of_getElem? hx)), Bool.eq_false_iff.mpr ?_⟩
          intro h
          obtain ⟨r, hr, hdeny, -⟩ := hdeny.mp h
          rw [hkind r hr] at hdeny
          cases hdeny
      rw [← hok]
      constructor
      · constructor
        · rintro ⟨b, hb⟩
          by_contra h
          rw [if_neg h] at hb
          cases hb
        · exact fun h => ⟨c, if_pos h⟩
      · intro b hb nd hnd
        split at hb
        · rename_i h
          cases hb
          obtain ⟨t, x, hx, hget⟩ := exists_placed hlen hnd
          obtain ⟨hmark, hneed, -⟩ := hall t x nd hx hget
          obtain ⟨r, hr, habout⟩ := hmark.mp (h nd hnd).1
          exact hneed.mpr ⟨r, hr, hkind r hr, habout⟩
        · cases hb
    · intro hkind
      rw [if_neg (hdenied hkind)]
      refine ⟨⟨?_, fun h => absurd (hunder hkind) h⟩, fun b hb => nomatch hb⟩
      rintro ⟨b, hb⟩
      cases hb

/-- Where all rules are applied. -/
theorem allApplied_iff {before after : List Rule} {b c : List Node}
    (hb : Painted .pass (AboutAny idx before) idx.nodes b)
    (hc : Painted .deny (AboutAny idx after) b c) :
    AllApplied idx rules c ↔ ∀ x ∈ placed [] idx.nodes,
      (((∃ r ∈ before, About idx r x) ∨ ∃ r ∈ after, About idx r x) ↔ ∃ r ∈ rules, About idx r x) ∧
      ((∃ r ∈ before, About idx r x) ↔ AboutSome idx rules .pass x) ∧
      ((∃ r ∈ after, About idx r x) ↔ AboutSome idx rules .deny x) := by
  have hlen : c.length = idx.nodes.length := by
    have := congrArg length (hc.map_bare.trans hb.map_bare)
    rwa [length_map, length_map] at this
  constructor
  · intro h x hx
    obtain ⟨t, nd, hx, hget⟩ := exists_node hlen hx
    obtain ⟨hmark, hneed, hdeny⟩ := bits_of_painted hb hc hget
    rw [aboutAny_iff hx, aboutAny_iff hx] at hmark
    rw [aboutAny_iff hx] at hneed hdeny
    rw [← hmark, ← hneed, ← hdeny]
    exact h t x nd hx hget
  · intro h t x nd hx hget
    obtain ⟨hmark, hneed, hdeny⟩ := bits_of_painted hb hc hget
    rw [hmark, hneed, hdeny, aboutAny_iff hx, aboutAny_iff hx]
    exact h x (mem_of_getElem? hx)

end Check

/-! ### The main result -/

section Main

variable {idx : PacIndex} {rl : RuleList}

/-- Rules that are not skip rules are pass rules up to the first deny rule. -/
theorem split_at_deny {rules : List Rule} (h : ∀ r ∈ rules, r.kind ≠ .skip) :
    (∀ r ∈ rules, r.kind = .pass) ∨
      ∃ before r rest, rules = before ++ r :: rest ∧ r.kind = .deny ∧
        ∀ q ∈ before, q.kind = .pass := by
  induction rules with
  | nil => exact .inl fun r hr => nomatch hr
  | cons r rules ih =>
    obtain ⟨hkind, hkinds⟩ := forall_mem_cons.mp h
    cases hr : r.kind with
    | skip => exact absurd hr hkind
    | deny => exact .inr ⟨[], r, rules, rfl, hr, fun q hq => nomatch hq⟩
    | pass =>
      rcases ih hkinds with hall | ⟨before, r', rest, rfl, hdeny, hbefore⟩
      · exact .inl (forall_mem_cons.mpr ⟨hr, hall⟩)
      · exact .inr ⟨r :: before, r', rest, rfl, hdeny, forall_mem_cons.mpr ⟨hr, hbefore⟩⟩

lemma listed_of_about {r : Rule} {x : List Name × Node} (hx : x ∈ placed [] idx.nodes)
    (h : About idx r x) : Listed idx.nodes r.path.comps := by
  by_contra hnot
  have habs := absent_of_not_listed r.path.comps_ne_nil hnot []
  rw [append_nil] at habs
  exact habs.not_covered hx h

/-- With no rules everything gets through. -/
theorem obeyed_of_nil (h : rl.rules = []) : Obeyed idx rl := by
  have hpacked : rl.packed = ⟨[], .passAll⟩ := by
    have hparsed := rl.parsed
    rw [h] at hparsed
    exact (Except.ok.inj hparsed).symm
  have happly : applyRules rl.packed.paths idx.nodes = .ok idx.nodes := by
    rw [hpacked]
    rfl
  have hone : ∀ nd ∈ idx.nodes,
      checkOne .passAll nd = ({ nd with mark := true, need := true }, false) := by
    intro nd hnd
    rw [checkOne, (idx.loaded nd hnd).mark]
    rfl
  have hcheck : checkIndex rl.packed idx.nodes
      = .ok (idx.nodes.map fun nd => { nd with mark := true, need := true }) := by
    have hany : (idx.nodes.map (checkOne .passAll)).any Prod.snd = false := by
      rw [any_map, any_eq_false]
      intro nd hnd
      rw [Function.comp, hone nd hnd]
      exact Bool.false_ne_true
    rw [checkIndex_eq happly, hpacked, checkNodes, hany, if_neg Bool.false_ne_true]
    exact congrArg _ (map_congr_left fun nd hnd => congrArg Prod.fst (hone nd hnd))
  have hneed : ∀ nd ∈ idx.nodes.map fun nd => { nd with mark := true, need := true },
      nd.need = true := by
    intro nd hnd
    obtain ⟨old, -, rfl⟩ := mem_map.mp hnd
    rfl
  refine ⟨?_, ⟨idx.nodes, happly, ?_⟩, ?_⟩
  · rw [h]
    exact fun r hr => nomatch hr
  · intro t x nd hx hget
    obtain ⟨hmark, hneed, hdeny, -⟩ := idx.loaded nd (mem_of_getElem? hget)
    rw [hmark, hneed, hdeny]
    simp [AboutSome, h]
  · rw [hcheck]
    refine ⟨fun hne => absurd h hne, fun _ => ⟨?_, ?_⟩, fun _ => ⟨_, rfl, ?_⟩⟩
    · simp [Under, h]
    · intro b hb
      cases hb
      exact hneed
    · intro t x nd hx hget
      simp [Under, h, hneed nd (mem_of_getElem? hget)]

/-- With skip rules nothing gets anywhere. -/
theorem not_obeyed_of_skip (hne : rl.rules ≠ []) (h : ∀ r ∈ rl.rules, r.kind = .skip) :
    ¬Obeyed idx rl := by
  intro hob
  obtain ⟨b, hb, -⟩ := hob.all
  obtain ⟨r, rest, hrules⟩ := exists_cons_of_ne_nil hne
  obtain ⟨k, hk⟩ := rounds_left [] r rest
  rw [nil_append, length_nil] at hk
  rw [rl.packed_paths, hrules, applyRules, hk, flatMap_cons] at hb
  exact applyFrom_skip k (h r (hrules ▸ mem_cons_self)) _ _ b hb

lemma Obeyed.clean (h : Obeyed idx rl) : ∀ r ∈ rl.rules, CleanRule idx r := by
  intro r hr
  by_contra hnot
  exact not_marks_of_not_clean hnot r.kind (h.each r hr)

/-- **Rules on clean paths that were applied** are obeyed if all of them were, and if there is
something to deny where there are only deny rules. -/
theorem obeyed_iff_of_applied (hne : rl.rules ≠ []) (hskip : ∀ r ∈ rl.rules, r.kind ≠ .skip)
    (hpol : rl.packed.policy = .denyRest) (hclean : ∀ r ∈ rl.rules, CleanRule idx r)
    {c : List Node} (happly : applyRules rl.packed.paths idx.nodes = .ok c)
    (hlen : c.length = idx.nodes.length) :
    Obeyed idx rl ↔ AllApplied idx rl.rules c ∧
      ((∀ r ∈ rl.rules, r.kind = .deny) → ∃ x ∈ placed [] idx.nodes, Under rl.rules x) := by
  constructor
  · intro h
    obtain ⟨b, hb, hall⟩ := h.all
    rw [happly] at hb
    cases hb
    exact ⟨hall, (decides_iff hne hskip hpol happly hlen hall).mp h.decides⟩
  · rintro ⟨hall, hunder⟩
    refine ⟨?_, ⟨c, happly, hall⟩, (decides_iff hne hskip hpol happly hlen hall).mpr hunder⟩
    intro r hr
    obtain ⟨d, -, hmarks⟩ := (hclean r hr).marks
    obtain ⟨b, hb, hpaint⟩ := hmarks r.kind idx.nodes idx.map_bare
    refine ⟨b, d, hb, (marked_iff_right hpaint _).mpr ?_⟩
    intro t x hx
    constructor
    · rintro ⟨y, hy, habout⟩
      rw [hx] at hy
      cases hy
      exact habout
    · exact fun habout => ⟨x, hx, habout⟩

lemma Painted.length_eq {kind : Kind} {S : ℕ → Prop} {a b : List Node}
    (h : Painted kind S a b) : b.length = a.length := by
  have := congrArg length h.map_bare
  rwa [length_map, length_map] at this

/-- Only pass rules: all are applied if all but the last return. -/
theorem obeyed_iff_passes (hne : rl.rules ≠ []) (hpol : rl.packed.policy = .denyRest)
    (hkind : ∀ r ∈ rl.rules, r.kind = .pass) (hclean : ∀ r ∈ rl.rules, CleanRule idx r) :
    Obeyed idx rl ↔ ∀ r ∈ rl.rules.dropLast, ReturnsRule idx r := by
  have hnot : ∀ r ∈ rl.rules, r.kind ≠ .skip ∧ r.kind ≠ .deny := by
    intro r hr
    rw [hkind r hr]
    exact ⟨nofun, nofun⟩
  constructor
  · intro h
    obtain ⟨c, hc, -⟩ := h.all
    obtain ⟨before, r, hrules⟩ : ∃ before r, rl.rules = before ++ [r] :=
      ⟨_, _, (dropLast_append_getLast hne).symm⟩
    rw [hrules, forall_mem_append] at hkind hclean
    obtain ⟨k, hk⟩ := rounds_left before r []
    rw [rl.packed_paths, hrules, applyRules, hk, flatMap_append] at hc
    rw [hrules, dropLast_concat]
    refine returns_of_applyFrom hkind.1 hclean.1 idx.map_bare ?_ hc
    rw [flatMap_singleton, ← length_pos_iff, r.length_pack]
    exact lt_of_lt_of_le (Nat.succ_pos _) r.need_bounds.1
  · intro hret
    obtain ⟨c, hc, hpaint⟩ := applyRules_passes hkind hclean hret
    rw [← rl.packed_paths] at hc
    rw [obeyed_iff_of_applied hne (fun r hr => (hnot r hr).1) hpol hclean hc hpaint.length_eq]
    constructor
    · have hnone : Painted .deny (AboutAny idx []) c c := by
        refine (painted_refl .deny c).congr fun t => ?_
        simp [AboutAny]
      rw [allApplied_iff hpaint hnone]
      intro x hx
      refine ⟨by simp, ?_, ?_⟩
      · constructor
        · rintro ⟨r, hr, habout⟩
          exact ⟨r, hr, hkind r hr, habout⟩
        · rintro ⟨r, hr, -, habout⟩
          exact ⟨r, hr, habout⟩
      · constructor
        · rintro ⟨r, hr, -⟩
          cases hr
        · rintro ⟨r, hr, hdeny, -⟩
          exact absurd hdeny (hnot r hr).2
    · intro hdeny
      obtain ⟨r, hr⟩ := exists_mem_of_ne_nil _ hne
      exact absurd (hdeny r hr) (hnot r hr).2

/-- Which rules must be futile for all to count. -/
theorem futile_iff {before rest : List Rule} {r : Rule} {b c : List Node}
    (hbefore : ∀ q ∈ before, q.kind = .pass) (hkind : r.kind = .deny)
    (hskip : ∀ q ∈ rest, q.kind ≠ .skip)
    (hb : Painted .pass (AboutAny idx before) idx.nodes b)
    (hc : Painted .deny (AboutAny idx [r]) b c) :
    (AllApplied idx (before ++ r :: rest) c ∧
      ((∀ q ∈ before ++ r :: rest, q.kind = .deny) →
        ∃ x ∈ placed [] idx.nodes, Under (before ++ r :: rest) x)) ↔
    Futile idx before r rest := by
  have hpass : ∀ x, AboutSome idx (before ++ [r]) .pass x ↔ ∃ q ∈ before, About idx q x := by
    intro x
    constructor
    · rintro ⟨q, hq, hqkind, habout⟩
      rcases mem_append.mp hq with hq | hq
      · exact ⟨q, hq, habout⟩
      · rw [mem_singleton.mp hq, hkind] at hqkind
        cases hqkind
    · rintro ⟨q, hq, habout⟩
      exact ⟨q, mem_append_left _ hq, hbefore q hq, habout⟩
  have hdeny : ∀ x, AboutSome idx (before ++ [r]) .deny x ↔ ∃ q ∈ [r], About idx q x := by
    intro x
    constructor
    · rintro ⟨q, hq, hqkind, habout⟩
      rcases mem_append.mp hq with hq | hq
      · rw [hbefore q hq] at hqkind
        cases hqkind
      · exact ⟨q, hq, habout⟩
    · rintro ⟨q, hq, habout⟩
      exact ⟨q, mem_append_right _ hq, mem_singleton.mp hq ▸ hkind, habout⟩
  have hmem : ∀ q, q ∈ before ++ r :: rest ↔ q ∈ before ++ [r] ∨ q ∈ rest := by
    intro q
    simp [or_assoc]
  have hsome : ∀ x kind, AboutSome idx (before ++ r :: rest) kind x ↔
      AboutSome idx (before ++ [r]) kind x ∨ AboutSome idx rest kind x := by
    intro x kind
    simp only [AboutSome, hmem, or_and_right, exists_or]
  have hany : ∀ x, ((∃ q ∈ before, About idx q x) ∨ ∃ q ∈ [r], About idx q x) ↔
      ∃ q ∈ before ++ [r], About idx q x := by
    intro x
    simp only [mem_append, or_and_right, exists_or]
  rw [allApplied_iff hb hc]
  constructor
  · rintro ⟨hall, hunder⟩
    have hfutile : ∀ q ∈ rest, ∀ x ∈ placed [] idx.nodes, About idx q x →
        AboutSome idx (before ++ [r]) q.kind x := by
      intro q hq x hx habout
      obtain ⟨-, hp, hd⟩ := hall x hx
      have hqsome : AboutSome idx (before ++ r :: rest) q.kind x :=
        (hsome x q.kind).mpr (.inr ⟨q, hq, rfl, habout⟩)
      cases hq' : q.kind with
      | skip => exact absurd hq' (hskip q hq)
      | pass =>
        rw [hq'] at hqsome
        exact (hpass x).mpr (hp.mpr hqsome)
      | deny =>
        rw [hq'] at hqsome
        exact (hdeny x).mpr (hd.mpr hqsome)
    refine ⟨hfutile, ?_⟩
    intro hkinds
    obtain ⟨x, hx, q, hq, hpre⟩ := hunder hkinds
    have habout : About idx q x := .inl hpre
    have hqsome : AboutSome idx (before ++ [r]) .deny x := by
      rcases (hmem q).mp hq with hq' | hq'
      · exact ⟨q, hq', hkinds q hq, habout⟩
      · rw [← hkinds q hq]
        exact hfutile q hq' x hx habout
    obtain ⟨q', hq', habout'⟩ := (hdeny x).mp hqsome
    exact listed_of_about hx (mem_singleton.mp hq' ▸ habout')
  · rintro ⟨hfutile, hlisted⟩
    have hnew : ∀ x ∈ placed [] idx.nodes, ∀ kind,
        AboutSome idx (before ++ r :: rest) kind x ↔ AboutSome idx (before ++ [r]) kind x := by
      intro x hx kind
      rw [hsome]
      constructor
      · rintro (h | ⟨q, hq, rfl, habout⟩)
        · exact h
        · exact hfutile q hq x hx habout
      · exact .inl
    constructor
    · intro x hx
      refine ⟨?_, ?_, ?_⟩
      · rw [hany]
        constructor
        · rintro ⟨q, hq, habout⟩
          exact ⟨q, (hmem q).mpr (.inl hq), habout⟩
        · rintro ⟨q, hq, habout⟩
          obtain ⟨q', hq', -, habout'⟩ := (hnew x hx q.kind).mp ⟨q, hq, rfl, habout⟩
          exact ⟨q', hq', habout'⟩
      · rw [hnew x hx, hpass]
      · rw [hnew x hx, hdeny]
    · intro hkinds
      obtain ⟨x, hx, hpath⟩ := hlisted hkinds
      exact ⟨x, hx, r, by simp, hpath ▸ prefix_rfl⟩

/-- With a deny rule: it must be reached, and what comes after it must be futile. -/
theorem obeyed_iff_deny {before rest : List Rule} {r : Rule}
    (hrules : rl.rules = before ++ r :: rest) (hpol : rl.packed.policy = .denyRest)
    (hskip : ∀ q ∈ rl.rules, q.kind ≠ .skip) (hclean : ∀ q ∈ rl.rules, CleanRule idx q)
    (hbefore : ∀ q ∈ before, q.kind = .pass) (hkind : r.kind = .deny) :
    Obeyed idx rl ↔ (∀ q ∈ before, ReturnsRule idx q) ∧ Futile idx before r rest := by
  have hmem : ∀ q, q ∈ before ∨ q = r ∨ q ∈ rest → q ∈ rl.rules := by
    intro q hq
    rw [hrules]
    simpa using hq
  have hcleans : ∀ q ∈ before, CleanRule idx q := fun q hq => hclean q (hmem q (.inl hq))
  have hne : rl.rules ≠ [] := ne_nil_of_mem (hmem r (.inr (.inl rfl)))
  have hlen : (rest.flatMap Rule.pack).length ≤ MAXCONF := by
    have hfits := rl.fits
    have hrest := length_packed_le rest
    rw [hrules, map_append, map_cons, sum_append, sum_cons] at hfits
    omega
  -- either way all before it return, so that the rules are applied up to it
  have hiff : (∀ q ∈ before, ReturnsRule idx q) → (Obeyed idx rl ↔ Futile idx before r rest) := by
    intro hret
    obtain ⟨b, c, hb, hc, happly⟩ := applyRules_to_deny hlen
      (fun q hq => ⟨hbefore q hq, hret q hq⟩) hcleans hkind (hclean r (hmem r (.inr (.inl rfl))))
    rw [← hrules, ← rl.packed_paths] at happly
    rw [obeyed_iff_of_applied hne hskip hpol hclean happly (hc.length_eq.trans hb.length_eq),
      hrules]
    exact futile_iff hbefore hkind (fun q hq => hskip q (hmem q (.inr (.inr hq)))) hb hc
  constructor
  · intro h
    obtain ⟨c, hc, -⟩ := h.all
    obtain ⟨k, hk⟩ := rounds_left before r rest
    rw [rl.packed_paths, hrules, applyRules, hk, flatMap_append] at hc
    have hret : ∀ q ∈ before, ReturnsRule idx q := by
      refine returns_of_applyFrom hbefore hcleans idx.map_bare ?_ hc
      rw [flatMap_cons, ← length_pos_iff, length_append, r.length_pack]
      have := r.need_bounds.1
      omega
    exact ⟨hret, (hiff hret).mp h⟩
  · rintro ⟨hret, hfutile⟩
    exact (hiff hret).mpr hfutile

/-- **Rules are obeyed if and only if they are workable**, for every package and every list of
rules that was parsed. -/
theorem obeyed_iff (idx : PacIndex) (rl : RuleList) : Obeyed idx rl ↔ Workable idx rl.rules := by
  by_cases hne : rl.rules = []
  · exact iff_of_true (obeyed_of_nil hne) (.inl hne)
  rcases (loadRules_ok rl.parsed).2 with ⟨hnil, -⟩ | ⟨-, -, hskip⟩ | ⟨-, hpol, hskip⟩
  · exact absurd hnil hne
  · refine iff_of_false (not_obeyed_of_skip hne hskip) ?_
    rintro (hnil | ⟨hrules, -⟩)
    · exact hne hnil
    · obtain ⟨r, hr⟩ := exists_mem_of_ne_nil _ hne
      exact (hrules r hr).1 (hskip r hr)
  · constructor
    · intro h
      refine .inr ⟨fun r hr => ⟨hskip r hr, h.clean r hr⟩, ?_⟩
      rcases split_at_deny hskip with hkind | ⟨before, r, rest, hrules, hkind, hbefore⟩
      · exact .inl ⟨hkind, (obeyed_iff_passes hne hpol hkind h.clean).mp h⟩
      · obtain ⟨hret, hfutile⟩ :=
          (obeyed_iff_deny hrules hpol hskip h.clean hbefore hkind).mp h
        exact .inr ⟨before, r, rest, hrules, hkind, fun q hq => ⟨hbefore q hq, hret q hq⟩, hfutile⟩
    · rintro (hnil | ⟨hrules, hcases⟩)
      · exact absurd hnil hne
      have hclean : ∀ r ∈ rl.rules, CleanRule idx r := fun r hr => (hrules r hr).2
      rcases hcases with ⟨hkind, hret⟩ | ⟨before, r, rest, hsplit, hkind, hbefore, hfutile⟩
      · exact (obeyed_iff_passes hne hpol hkind hclean).mpr hret
      · refine (obeyed_iff_deny hsplit hpol hskip hclean (fun q hq => (hbefore q hq).1) hkind).mpr
          ?_
        exact ⟨fun q hq => (hbefore q hq).2, hfutile⟩

/-- A package of a directory `a` with a file `x` in it, as it was loaded. -/
def nestedIndex : PacIndex where
  nodes := [⟨[97], 0, 0x80, false, false, false, false⟩,
    ⟨[120], 0, 0x04, false, false, false, false⟩]
  leveled := by decide
  loaded := by
    intro nd hnd
    simp only [mem_cons, not_mem_nil, or_false] at hnd
    rcases hnd with rfl | rfl <;> exact ⟨rfl, rfl, rfl, rfl, by decide⟩
  valid := by decide
  distinct := by
    rw [Distinct]
    decide
  nonempty := nofun

/-- A single rule, `deny b`. -/
def denyOther : RuleList where
  rules := [⟨.deny, ⟨[98], cons_ne_nil _ _, by decide, by decide, by decide⟩⟩]
  fits := by decide
  packed := ⟨[4, 192, 98, 0], .denyRest⟩
  parsed := by decide

/-- **A package is denied for what it does not have**: with `b` denied, the package with `a`
and `a/x` is refused. -/
theorem denied_for_another :
    checkIndex denyOther.packed nestedIndex.nodes
        = .error (.fail ⟨some "unable to continue", none, none⟩) ∧
      ¬Obeyed nestedIndex denyOther := by
  have hcheck : checkIndex denyOther.packed nestedIndex.nodes
      = .error (.fail ⟨some "unable to continue", none, none⟩) := by decide +kernel
  refine ⟨hcheck, fun h => ?_⟩
  have hkind : ∀ r ∈ denyOther.rules, r.kind = .deny := by
    intro r hr
    rw [mem_singleton.mp hr]
  obtain ⟨b, hb⟩ := (h.decides.deny hkind).1.mpr (by
    rintro ⟨x, hx, r, hr, hpre⟩
    rw [mem_singleton.mp hr] at hpre
    revert x
    decide)
  rw [hcheck] at hb
  cases hb

end Main

end Minibase.Mpkg
