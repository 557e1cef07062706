import Recast.Proofs.History
import Recast.Proofs.TypedRequests

/-!
# What options cost

The options of a code generator save work: a literal is loaded in the representation it is wanted
in, a place is read through its address, and what has no effect is left out where its value is
discarded.  Each of these ways returns early with a representation of its own.  It is the one that
the general way reports.

* `Place.Faithful` : a place that keeps to what it reports, and whose value and address take one
  load each;
* `Place.faithful_argument_iff`, `Place.Variable.faithful` : **which places do**;
* `Expr.Ordinary` : literals, calls, and loads from such places;
* `Scope.Saves` : how a plan may stand to one that is made with fewer options;
* `Scope.saves_reshapeExpr` : **the plans that options lead to save work**, and no more;
* `options_change_cost_only` : **options change what code costs, never what becomes of it**.
-/

namespace Recast

/-! ### Expressions -/

/-- The step has nothing to do with branches and scratch locals. -/
def Step.isAside : Step → Bool
  | .emit (.br _) | .emit (.brFalse _) => false
  | .emit _ | .text _ | .invoke .. => true
  | _ => false

/-- The instruction calls a routine of the program. -/
def Instr.isInvoke : Instr → Bool
  | .invoke .. => true
  | _ => false

/-- The step calls a routine of the program. -/
def Step.isInvoke : Step → Bool
  | .emit i => i.isInvoke
  | .invoke .. => true
  | _ => false

/-- The instruction pushes one operand, and does no more than that. -/
def Instr.isLoad : Instr → Bool
  | .ldNull | .ldcI4 _ | .ldcI8 _ | .ldcR4 _ | .ldcR8 _ | .ldStr _ => true
  | .ldLoc _ | .ldLocA _ | .ldArg _ | .ldArgA _ | .ldContext | .ldTypeHandle _ => true
  | _ => false

/-- The plan of one load. -/
def Script.Pushes (p : Script Rep) (r : Rep) : Prop :=
  ∃ i : Instr, i.isLoad = true ∧ p = Place.read i (some r)

/-- A place keeps to what it reports: it loads a value of its static representation, and yields
its address if it claims one.  Each takes one load, as those of all variables do. -/
structure Place.Faithful (p : Place) (r : Rep) : Prop where
  /-- The representation is the one known beforehand, or else the dynamic union. -/
  rep : p.rep?.getD .value = r
  /-- There is a value. -/
  ne_void : r ≠ .void
  /-- The value is loaded. -/
  load : p.load.Pushes r
  /-- The address is yielded. -/
  address : p.hasAddress = true → ∃ q, p.loadAddress.Pushes q

section Loads

variable {p : Script Rep} {r : Rep} {i : Instr}

theorem Step.scratch?_of_isAside {t : Step} (h : t.isAside = true) : t.scratch? = none := by
  cases t <;> first | rfl | cases h

theorem Instr.isAside_of_isLoad (h : i.isLoad = true) : (Step.emit i).isAside = true := by
  cases i <;> first | rfl | cases h

theorem Instr.isInvoke_of_isLoad (h : i.isLoad = true) : i.isInvoke = false := by
  cases i <;> first | rfl | cases h

theorem Session.emit_of_isLoad {C : Catalog} (hi : i.isLoad = true) (s : Session) :
    ∃ s', emit C i s = .ok () s' ∧ s'.builder.depth = s.builder.depth + 1 ∧
      ∀ n, s.HasRoom n → s'.HasRoom n := by
  have heffect : i.effect C (s.builder.startDepth i) = (0, 1) ∧
      s.builder.startDepth i = s.builder.depth := by
    cases i <;> first | exact ⟨rfl, rfl⟩ | cases hi
  obtain ⟨b, hb, hdepth, -⟩ := Builder.emit_of_le (b := s.builder) (C := C) (i := i)
    (by rw [heffect.1]; exact Nat.zero_le _)
  refine ⟨{ s with builder := b }, by rw [emit, hb], ?_, fun n hroom =>
    hroom.congr rfl rfl (locals_emit hb)⟩
  rw [hdepth, heffect.1, heffect.2]
  rfl

namespace Script.Pushes

theorem result (h : p.Pushes r) : p.result = .ok r := by
  obtain ⟨i, -, rfl⟩ := h
  rfl

theorem steps (h : p.Pushes r) : ∃ i : Instr, i.isLoad = true ∧ p.steps = [.emit i] := by
  obtain ⟨i, hi, rfl⟩ := h
  exact ⟨i, hi, rfl⟩

theorem aside (h : p.Pushes r) : p.all Step.isAside = true := by
  obtain ⟨i, hi, hsteps⟩ := h.steps
  simp [Script.all, hsteps, Instr.isAside_of_isLoad hi]

theorem quiet (h : p.Pushes r) : p.all (!·.isInvoke) = true := by
  obtain ⟨i, hi, hsteps⟩ := h.steps
  simp [Script.all, hsteps, Step.isInvoke, Instr.isInvoke_of_isLoad hi]

theorem countP_isInstr (h : p.Pushes r) : p.steps.countP Step.isInstr = 1 := by
  obtain ⟨i, -, hsteps⟩ := h.steps
  rw [hsteps]
  rfl

theorem depth (h : p.Pushes r) (s : Session) :
    ∃ s', Session.performAll .standard p.steps s = .ok () s' ∧
      s'.builder.depth = s.builder.depth + 1 := by
  obtain ⟨i, hi, hsteps⟩ := h.steps
  obtain ⟨s', hemit, hdepth, -⟩ := Session.emit_of_isLoad (C := .standard) hi s
  rw [hsteps]
  exact ⟨s', Session.bind_eq_ok.2 ⟨(), s', hemit, rfl⟩, hdepth⟩

end Script.Pushes

end Loads

theorem Place.pushes_read_iff {i : Instr} (hi : i.isLoad = true) {r? : Option Rep} {r : Rep} :
    (read i r?).Pushes r ↔ r? = some r := by
  constructor
  · intro h
    have hresult := h.result
    cases r? with
    | none => cases hresult
    | some q =>
      cases hresult
      rfl
  · rintro rfl
    exact ⟨i, hi, rfl⟩

/-- An argument is such a place just if it holds a value of the representation that is known of it,
and has the address that it claims. -/
theorem Place.faithful_argument_iff {index : Nat} {rep? loaded addressed : Option Rep}
    {hasAddress : Bool} {r : Rep} : (argument index rep? hasAddress loaded addressed).Faithful r ↔
      rep?.getD .value = r ∧ r ≠ .void ∧ loaded = some r ∧
        (hasAddress = true → ∃ q, addressed = some q) := by
  constructor
  · intro h
    exact ⟨h.rep, h.ne_void, (pushes_read_iff rfl).1 h.load, fun hclaims =>
      (h.address hclaims).imp fun _ => (pushes_read_iff rfl).1⟩
  · rintro ⟨hrep, hr, hloaded, haddressed⟩
    exact ⟨hrep, hr, (pushes_read_iff rfl).2 hloaded, fun hclaims =>
      (haddressed hclaims).imp fun _ => (pushes_read_iff rfl).2⟩

theorem Place.Variable.faithful {p : Place} {r : Rep} {load addr : Instr}
    (hp : p.Variable r load addr) (hr : r ≠ .void) : p.Faithful r := by
  cases hp with
  | «local» => exact ⟨rfl, hr, ⟨_, rfl, rfl⟩, fun _ => ⟨r, _, rfl, rfl⟩⟩
  | param => exact ⟨rfl, hr, ⟨_, rfl, rfl⟩, fun _ => ⟨r, _, rfl, rfl⟩⟩

/-- Literals, calls, and loads without a known value from places that keep to what they report,
with any access mode. -/
inductive Expr.Ordinary : Expr → Prop
  /-- A literal. -/
  | literal (c : Constant) (access : Access) : Ordinary { Expr.literal c with access := access }
  /-- A call of a routine. -/
  | invoke (routine : String) (returns : Rep) (hint : Hint) (proven : Option Constant)
      (access : Access) : Ordinary ⟨.invoke routine returns, hint, proven, access⟩
  /-- A load. -/
  | load {p : Place} {r : Rep} (h : p.Faithful r) (hint : Hint) (access : Access) :
      Ordinary ⟨.load p, hint, none, access⟩

/-- Every option that is on in one setting is on in the other. -/
structure Options.Within (o o' : Options) : Prop where
  /-- Constants are folded. -/
  foldConstants : o.foldConstants = true → o'.foldConstants = true
  /-- Places are read through their addresses. -/
  placeFastPaths : o.placeFastPaths = true → o'.placeFastPaths = true
  /-- What has no effect is left out. -/
  elidePureDiscards : o.elidePureDiscards = true → o'.elidePureDiscards = true

theorem Options.unoptimized_within (o : Options) : unoptimized.Within o :=
  ⟨Bool.noConfusion, Bool.noConfusion, Bool.noConfusion⟩

theorem Expr.Ordinary.consumedAs {e : Expr} (h : e.Ordinary) (target : Rep) :
    (e.consumedAs target).Ordinary := by
  cases h with
  | literal c access => exact .literal c _
  | invoke routine returns hint proven access => exact .invoke routine returns hint proven _
  | load h hint access => exact .load h hint _

namespace Scope

variable {T : ClassTable} {k : Option ClassId} {o o' : Options} {e : Expr} {p : Place}
  {source target r : Rep} {hint : Hint} {plan plan' : Script Rep}

/-! ### Plans that save work -/

/-- How a plan may stand to one that is made with fewer options: it is the same, or it ends in the
same representation with no more instructions and without scratch locals, and neither calls a
routine. -/
inductive Saves : Script Rep → Script Rep → Prop
  /-- Nothing is saved. -/
  | same (plan : Script Rep) : Saves plan plan
  /-- Something is saved. -/
  | saved {plan plan' : Script Rep} {r : Rep} (hresult : plan.result = .ok r)
      (hresult' : plan'.result = .ok r) (hscratch : plan.all (·.scratch?.isNone) = true)
      (hquiet : plan.all (!·.isInvoke) = true) (hquiet' : plan'.all (!·.isInvoke) = true)
      (hlength : plan.steps.countP Step.isInstr ≤ plan'.steps.countP Step.isInstr) :
      Saves plan plan'

theorem Saves.ite {b b' : Bool} (hb : b = true → b' = true) (h : Saves plan plan') :
    Saves (if b' then plan else plan') (if b then plan else plan') := by
  cases b' with
  | true =>
    cases b with
    | true => exact .same _
    | false => exact h
  | false =>
    cases b with
    | true => exact Bool.noConfusion (hb rfl)
    | false => exact .same _

theorem Saves.mapError (h : Saves plan plan') (f : ConvertError → ConvertError) :
    Saves (plan.mapError f) (plan'.mapError f) := by
  cases h with
  | same => exact .same _
  | saved hresult hresult' hscratch hquiet hquiet' hlength =>
    exact .saved (congrArg (Except.mapError f) hresult) (congrArg (Except.mapError f) hresult')
      hscratch hquiet hquiet' hlength

/-- No construction of plans calls a routine of the program. -/
theorem congruence_quiet (S : Scope) : S.Congruence S fun _ p _ => p.all (!·.isInvoke) = true :=
  .ofAll (fun i hi => by cases i <;> first | rfl | cases hi) (fun _ => rfl) (fun _ _ _ => rfl)
    fun _ => rfl

theorem evaluate_of_isPure (he : e.Ordinary) (hpure : e.isPure = true)
    (ha : e.access ≠ .readRef) :
    ((standard T k).evaluate e).result = .ok e.staticRep ∧
      ((standard T k).evaluate e).all (!·.isInvoke) = true := by
  cases he with
  | literal c access =>
    exact ⟨result_evaluateLiteral c, (congruence_quiet _).evaluateLiteral c⟩
  | invoke => cases hpure
  | @load p r h hint access =>
    have hload : (standard T k).evaluate ⟨.load p, hint, none, access⟩ = p.load := if_neg ha
    rw [hload, h.load.result, ← h.rep]
    exact ⟨rfl, h.load.quiet⟩

theorem saves_discardExpr (he : e.Ordinary) (ha : e.access ≠ .readRef) (ho : o.Within o') :
    Saves ((standard T k).discardExpr o' e) ((standard T k).discardExpr o e) := by
  unfold discardExpr
  by_cases hpure : e.isPure = true
  · obtain ⟨hresult, hquiet⟩ := evaluate_of_isPure (T := T) (k := k) he hpure ha
    simp only [hpure, and_true]
    refine .ite ho.elidePureDiscards (.saved (r := .void) rfl ?_ rfl rfl ?_ (Nat.zero_le _))
    · simp only [Script.result_bind, hresult, Script.result_drop, Except.bind, Script.result_pure]
    · exact Script.all_bind hquiet fun source _ =>
        Script.all_bind ((congruence_quiet (standard T k)).drop source) fun _ _ => rfl
  · simp only [hpure, Bool.false_eq_true, and_false, ↓reduceIte]
    exact .same _

theorem evaluateAndReshape_eq (S : Scope) (ha : e.access ≠ .readRef) :
    S.evaluateAndReshape e target =
      S.evaluate e >>= fun source => S.reshape source e.hint target := by
  simp only [evaluateAndReshape, ha, and_false, ↓reduceIte]

theorem scratch?_loadConstant? {c : Constant} {fold : Script Rep}
    (hfold : (standard T k).loadConstant? c target = some fold) :
    fold.all (·.scratch?.isNone) = true := by
  cases c <;> cases target <;> cases hfold
  case bool.value b => cases b <;> rfl
  all_goals rfl

theorem saves_loadConstant? {c : Constant} {access : Access} {fold : Script Rep}
    (ha : access ≠ .readRef) (hfold : (standard T k).loadConstant? c target = some fold) :
    Saves fold
      ((standard T k).evaluateAndReshape { Expr.literal c with access := access } target) := by
  -- the general path is that of the literal, but for the name of the conversion in an error
  have hgeneral :
      (standard T k).evaluateAndReshape { Expr.literal c with access := access } target =
        (standard T k).evaluateLiteral c >>= fun source =>
          (standard T k).reshape source c.hint target := evaluateAndReshape_eq _ ha
  have hsteps : ((standard T k).evaluateLiteral c >>= fun source =>
      (standard T k).reshape source c.hint target).steps =
        ((standard T k).convertLiteral c target).steps := by
    rw [convertLiteral, Script.steps_bind, Script.steps_bind, result_evaluateLiteral]
    rfl
  have hresult := result_convertLiteral hfold
  rw [convertLiteral, Script.result_bind, result_evaluateLiteral, Except.bind,
    result_convert, ← result_reshape (k := k)] at hresult
  rw [hgeneral]
  refine .saved (result_loadConstant? hfold) ?_ (scratch?_loadConstant? hfold) ?_ ?_ ?_
  · rw [Script.result_bind, result_evaluateLiteral]
    exact hresult
  · have hrel := (congruence_quiet (standard T k)).loadConstant? c target
    rw [hfold] at hrel
    cases hrel with | some h => exact h
  · exact Script.all_bind ((congruence_quiet _).evaluateLiteral c) fun _ _ =>
      (congruence_quiet _).reshape _ _ _
  · rw [hsteps]
    exact Nat.le_trans List.countP_le_length (length_loadConstant? hfold)

/-- What reads a place by its address takes no more than the conversion on the stack. -/
theorem saves_call (h : p.Faithful source) {q : Rep} (haddress : p.loadAddress.Pushes q)
    {op : Op} (hop : addressOp? source target = some op) (hhint : accessor? source hint = none) :
    Saves (p.loadAddress >>= fun _ => (standard T k).call op)
      (p.load >>= fun source => (standard T k).reshape source hint target) := by
  have hne : source ≠ target := by
    rintro rfl
    rw [addressOp?_self] at hop
    cases hop
  -- on the stack the value is converted by the rule for the target
  obtain ⟨hresult, hlength⟩ :
      ((standard T k).reshape source hint target).result = .ok target ∧
        ((standard T k).call op).steps.countP Step.isInstr ≤
          ((standard T k).reshape source hint target).steps.countP Step.isInstr := by
    have rule : source.isReference = false → target ≠ .void →
        (standard T k).reshape source hint target =
          (standard T k).intoTarget (standard T k).reshape source hint target := fun hs ht =>
      reshape_of_intoTarget standard_resolvesAliases hne ht hs hhint
    rcases addressOp?_eq_some hop with ⟨rfl, ht⟩ | ⟨rfl, rfl, rfl⟩ | ⟨op', h'⟩
    · rcases ht with ⟨rfl, rfl⟩ | ⟨rfl, rfl⟩ | ⟨rfl, rfl⟩ <;> rw [rule rfl (by decide)] <;>
        exact ⟨rfl, Nat.le_of_ble_eq_true rfl⟩
    · rw [rule rfl (by decide)]
      exact ⟨rfl, Nat.le_of_ble_eq_true rfl⟩
    · unfold addressVariant? at h'
      split_ifs at h' with hlong hroot
      · obtain ⟨rfl, rfl⟩ := hlong
        cases h'
        rw [rule rfl (by decide)]
        exact ⟨rfl, Nat.le_of_ble_eq_true rfl⟩
      · obtain ⟨rfl, rfl⟩ := hroot
        cases h'
        rw [rule rfl (by decide)]
        exact ⟨rfl, Nat.le_of_ble_eq_true rfl⟩
  refine .saved (r := target) ?_ ?_ ?_ ?_ ?_ ?_
  · rw [Script.result_bind, haddress.result]
    exact congrArg _ (standard_of_addressOp? hop).2
  · rw [Script.result_bind, h.load.result]
    exact hresult
  · refine Script.all_bind ?_ fun _ _ => all_call (fun _ _ => rfl) op
    exact Script.all_mono (fun t ht => by rw [Step.scratch?_of_isAside ht]; rfl) haddress.aside
  · exact Script.all_bind haddress.quiet fun _ _ => (congruence_quiet _).call op
  · exact Script.all_bind h.load.quiet fun _ _ => (congruence_quiet _).reshape _ _ _
  · rw [Script.steps_bind, Script.steps_bind, haddress.result, h.load.result, List.countP_append,
      List.countP_append, haddress.countP_isInstr, h.load.countP_isInstr]
    exact Nat.add_le_add_left hlength 1

theorem folded?_eq_none {S : Scope} (h : e.known? = none) : S.folded? o e target = none := by
  unfold folded?
  rw [h, Option.bind_none, ite_self]

/-- A place is read by a typed operation only if its address is claimed and no hint narrows the
union in it. -/
theorem readThroughAddress?_eq_some {S : Scope} {f : Script Rep → Script Rep}
    (hread : S.readThroughAddress? p target = some plan)
    (hnarrowed : (if p.rep? = some target then none else (S.narrowPlace? p hint).map f) = none) :
    ∃ source op, p.rep? = some source ∧ p.hasAddress = true ∧ addressOp? source target = some op ∧
      accessor? source hint = none ∧ plan = p.loadAddress >>= fun _ => S.call op := by
  unfold readThroughAddress? at hread
  split at hread
  case h_1 source hr haddress =>
    obtain ⟨op, hop, rfl⟩ := Option.map_eq_some_iff.1 hread
    refine ⟨source, op, hr, haddress, hop, ?_, rfl⟩
    have hne : source ≠ target := by
      rintro rfl
      rw [addressOp?_self] at hop
      cases hop
    rw [hr, if_neg fun h => hne (Option.some.inj h), Option.map_eq_none_iff, narrowPlace?, hr,
      haddress] at hnarrowed
    exact Option.map_eq_none_iff.1 hnarrowed
  case h_2 => cases hread

theorem saves_literal {c : Constant} {access : Access} (ha : access ≠ .readRef)
    (ho : o.Within o') :
    let e : Expr := { Expr.literal c with access := access }
    let general := (standard T k).evaluateAndReshape e target
    Saves (((standard T k).folded? o' e target).getD general)
      (((standard T k).folded? o e target).getD general) := by
  intro e general
  have hfolded : ∀ o, (standard T k).folded? o e target =
      if o.foldConstants then (standard T k).loadConstant? c target else none := fun _ => rfl
  rw [hfolded, hfolded]
  cases hfold : (standard T k).loadConstant? c target with
  | none =>
    rw [ite_self, ite_self]
    exact .same _
  | some fold =>
    have hsome : ∀ b : Bool, (if b then some fold else none).getD general =
        if b then fold else general := fun b => by cases b <;> rfl
    rw [hsome, hsome]
    exact .ite ho.foldConstants (saves_loadConstant? ha hfold)

theorem saves_load {access : Access} (h : p.Faithful r) (ha : access ≠ .readRef)
    (ho : o.Within o') :
    let e : Expr := ⟨.load p, hint, none, access⟩
    let general := (standard T k).evaluateAndReshape e target
    Saves (((standard T k).typedRead? o' e target).getD general)
      (((standard T k).typedRead? o e target).getD general) := by
  intro e general
  have htyped : ∀ o, (standard T k).typedRead? o e target =
      ((if p.rep? = some target then none
        else ((standard T k).narrowPlace? p hint).map fun narrowing => do
          let narrowed ← narrowing
          (standard T k).reshape narrowed narrowed.hint target) <|>
        if o.placeFastPaths then (standard T k).readThroughAddress? p target else none) :=
    fun _ => rfl
  rw [htyped, htyped]
  -- a union that is narrowed is narrowed under any options
  generalize hnarrowed : (if p.rep? = some target then none else _) = narrowed?
  cases narrowed? with
  | some plan => exact .same _
  | none =>
    cases hread : (standard T k).readThroughAddress? p target with
    | none =>
      rw [ite_self, ite_self]
      exact .same _
    | some plan =>
      have hsome : ∀ b : Bool, (none <|> if b then some plan else none).getD general =
          if b then plan else general := fun b => by cases b <;> rfl
      rw [hsome, hsome]
      refine .ite ho.placeFastPaths ?_
      obtain ⟨source, op, hr, haddress, hop, hhint, rfl⟩ :=
        readThroughAddress?_eq_some hread hnarrowed
      have hsource : r = source := by rw [← h.rep, hr, Option.getD_some]
      subst hsource
      obtain ⟨q, hq⟩ := h.address haddress
      have hgeneral : general =
          p.load >>= fun source => (standard T k).reshape source hint target := by
        have hload : (standard T k).evaluate e = p.load := if_neg ha
        rw [← hload]
        exact evaluateAndReshape_eq _ ha
      rw [hgeneral]
      exact saves_call h hq hop hhint

/-- **The plans that options lead to save work.** -/
theorem saves_reshapeExpr (he : e.Ordinary) (ha : target = .void → e.access ≠ .readRef)
    (ho : o.Within o') :
    Saves ((standard T k).reshapeExpr o' e target) ((standard T k).reshapeExpr o e target) := by
  unfold reshapeExpr
  split_ifs with hvoid href
  · exact saves_discardExpr he (ha hvoid) ho
  · exact .same _
  cases he with
  | literal c access =>
    have hread : ∀ o, (standard T k).typedRead? o { Expr.literal c with access := access } target =
        none := fun _ => rfl
    simp only [hread, Option.orElse_eq_orElse, Option.orElse_eq_or, Option.or_none]
    exact saves_literal href ho
  | invoke routine returns hint proven access =>
    rw [folded?_eq_none rfl, folded?_eq_none rfl]
    exact .same _
  | load h hint access =>
    rw [folded?_eq_none rfl, folded?_eq_none rfl]
    exact saves_load h href ho

theorem saves_convertExpr (he : e.Ordinary) (ho : o.Within o') :
    Saves ((standard T k).convertExpr o' e target) ((standard T k).convertExpr o e target) := by
  refine (saves_reshapeExpr (he.consumedAs target) (fun ht => ?_) ho).mapError _
  rw [Expr.consumedAs, if_pos ht]
  simp

/-- Two plans that are the same or end in the same representation without a call of a routine. -/
inductive Agrees : Script Rep → Script Rep → Prop
  /-- They are the same. -/
  | same (plan : Script Rep) : Agrees plan plan
  /-- No routine is called. -/
  | quiet {plan plan' : Script Rep} {r : Rep} (hresult : plan.result = .ok r)
      (hresult' : plan'.result = .ok r) (hquiet : plan.all (!·.isInvoke) = true)
      (hquiet' : plan'.all (!·.isInvoke) = true) : Agrees plan plan'

theorem Saves.agrees (h : Saves plan plan') : Agrees plan plan' := by
  cases h with
  | same => exact .same _
  | saved hresult hresult' _ hquiet hquiet' => exact .quiet hresult hresult' hquiet hquiet'

theorem Agrees.result_eq (h : Agrees plan plan') : plan.result = plan'.result := by
  cases h with
  | same => rfl
  | quiet hresult hresult' => rw [hresult, hresult']

theorem Agrees.symm (h : Agrees plan plan') : Agrees plan' plan := by
  cases h with
  | same => exact .same _
  | quiet hresult hresult' hquiet hquiet' => exact .quiet hresult' hresult hquiet' hquiet

theorem Agrees.trans {plan'' : Script Rep} (h : Agrees plan plan') (h' : Agrees plan' plan'') :
    Agrees plan plan'' := by
  cases h with
  | same => exact h'
  | quiet hresult hresult' hquiet hquiet' =>
    cases h' with
    | same => exact .quiet hresult hresult' hquiet hquiet'
    | quiet hsecond hthird _ hquiet'' =>
      rw [hresult'] at hsecond
      cases hsecond
      exact .quiet hresult hthird hquiet hquiet''

/-- **Under any two settings of the options** the plans of a conversion agree. -/
theorem agrees_convertExpr (T : ClassTable) (k : Option ClassId) (he : e.Ordinary)
    (o₁ o₂ : Options) (target : Rep) :
    Agrees ((standard T k).convertExpr o₁ e target) ((standard T k).convertExpr o₂ e target) :=
  have saves : ∀ o, Saves ((standard T k).convertExpr o e target)
      ((standard T k).convertExpr .unoptimized e target) := fun o =>
    saves_convertExpr he (Options.unoptimized_within o)
  (saves o₁).agrees.trans (saves o₂).agrees.symm

end Scope

/-! ### Sessions -/

namespace Session

variable {C : Catalog} {s s' s₁ s₂ : Session} {t : Step} {ts : List Step} {u : Unit} {n : Nat}

theorem scratch_perform (ht : t.scratch? = none) (h : perform C t s = .ok u s') :
    s'.scratch = s.scratch := by
  have emitted : ∀ {i : Instr} {s₀ : Session}, emit C i s₀ = .ok u s' →
      s'.scratch = s₀.scratch := by
    intro i s₀ hemit
    obtain ⟨b, -, rfl⟩ := emit_eq_ok hemit
    rfl
  cases t with
  | emit i => exact emitted h
  | text x | invoke x b =>
    obtain ⟨j, s₀, hj, hemit⟩ := bind_eq_ok.1 h
    rw [emitted hemit, (internText_eq_ok (attempt_eq_ok.1 hj)).2.1]
  | fork =>
    cases h
    rfl
  | brAbsent | brEnd | markAbsent | markEnd =>
    obtain ⟨_, _, hget, hemit⟩ := bind_eq_ok.1 h
    cases hget
    exact emitted hemit
  | reserve | store | address => cases ht

theorem scratch_performAll (hts : ts.all (·.scratch?.isNone) = true)
    (h : performAll C ts s = .ok u s') : s'.scratch = s.scratch := by
  induction ts generalizing s with
  | nil =>
    cases h
    rfl
  | cons t ts ih =>
    rw [List.all_cons, Bool.and_eq_true] at hts
    obtain ⟨_, s₀, ht, hrest⟩ := bind_eq_ok.1 h
    rw [ih hts.2 hrest, scratch_perform (Option.isNone_iff_eq_none.1 hts.1) ht]

theorem steady_declared (C : Catalog) (n : Nat) : Steady C fun s => n ≤ s.scratch.declared := by
  refine .of_acquire (fun s t hscratch _ hs => by rwa [hscratch]) fun s r slot t h hs => ?_
  obtain ⟨_, htake, -⟩ := acquire_eq_ok h
  refine Nat.le_trans hs ?_
  rcases ScratchPool.held_of_take htake with ⟨-, -, hP, -⟩ | ⟨-, -, -, hP, -⟩ <;> rw [hP]
  exact Nat.le_succ _

theorem labels_performAll (hts : ts.all Step.isAside = true) (h : performAll C ts s = .ok u s') :
    s'.builder.branchDepths = s.builder.branchDepths ∧ s'.builder.labels = s.builder.labels := by
  have emitted : ∀ {i : Instr} {s₀ s' : Session}, (Step.emit i).isAside = true →
      emit C i s₀ = .ok u s' → s'.builder.branchDepths = s₀.builder.branchDepths ∧
        s'.builder.labels = s₀.builder.labels := by
    intro i s₀ s' hi hemit
    obtain ⟨b, hb, rfl⟩ := emit_eq_ok hemit
    refine ⟨?_, (instrs_emit hb).2⟩
    unfold Builder.emit at hb
    dsimp only at hb
    split_ifs at hb
    cases hb
    cases i <;> first | rfl | cases hi
  induction ts generalizing s with
  | nil =>
    cases h
    exact ⟨rfl, rfl⟩
  | cons t ts ih =>
    rw [List.all_cons, Bool.and_eq_true] at hts
    obtain ⟨_, s₀, ht, hrest⟩ := bind_eq_ok.1 h
    obtain ⟨hdepths, hlabels⟩ := ih hts.2 hrest
    rw [hdepths, hlabels]
    cases t with
    | emit i => exact emitted hts.1 ht
    | text x | invoke x b =>
      obtain ⟨j, s₁, hj, hemit⟩ := bind_eq_ok.1 ht
      obtain ⟨hd, hl⟩ := emitted rfl hemit
      rw [hd, hl, (internText_eq_ok (attempt_eq_ok.1 hj)).2.2]
      exact ⟨rfl, rfl⟩
    | _ => cases hts.1

theorem filter_code_of_quiet {N : Numbering} (hts : ts.all (!·.isInvoke) = true) :
    (N.code ts).filter Instr.isInvoke = [] := by
  induction ts generalizing N with
  | nil => rfl
  | cons t ts ih =>
    rw [List.all_cons, Bool.and_eq_true] at hts
    rw [Numbering.code_cons, List.filter_append, ih hts.2, List.append_nil]
    cases t with
    | emit i => exact List.filter_cons_of_neg (by simpa [Step.isInvoke] using hts.1)
    | invoke => cases hts.1
    | _ => rfl

end Session

/-! ### Openings -/

open Scope Session

variable {T : ClassTable} {k : Option ClassId} {e : Expr} {s s₁ s₂ : Session}
  {plan plan' : Script Rep}

theorem Holds.length_eq {r : Rep} {top : List Operand} (h : Holds T r top) :
    top.length = if r = .void then 0 else 1 := by
  cases h with
  | void => rfl
  | one hr => rw [if_neg hr, List.length_singleton]

theorem performAll_invoke (routine : String) (returns : Rep) (hroom : s.HasRoom 1) :
    ∃ s', performAll .standard (Script.invoke routine returns).steps s = .ok () s' ∧
      s'.builder.depth = s.builder.depth + (returns != .void).toNat := by
  obtain ⟨j, s₀, hj, -⟩ := hroom.internText (n := 0) routine
  obtain ⟨-, -, hb⟩ := internText_eq_ok hj
  obtain ⟨b, hemit, hdepth, -⟩ := Builder.emit_of_le (b := s₀.builder) (C := .standard)
    (i := .invoke j (returns != .void)) (Nat.zero_le _)
  have hperform : perform .standard (.invoke routine (returns != .void)) s =
      .ok () { s₀ with builder := b } := by
    refine bind_eq_ok.2 ⟨j, s₀, attempt_eq_ok.2 hj, ?_⟩
    rw [emit, hemit]
  refine ⟨_, bind_eq_ok.2 ⟨(), _, hperform, rfl⟩, ?_⟩
  rw [hdepth, hb]
  rfl

/-- What is emitted of its own accord for an expression leaves as many operands as are known to be
there afterwards. -/
theorem Expr.Ordinary.performAll_opening (he : e.Ordinary) {first : Script Rep}
    {left : List Operand → Prop} (hopen : e.kind.Opens T first left) :
    first.all Step.isAside = true ∧ ∃ top, left top ∧ ∀ s : Session,
      s.HasRoom first.steps.length → ∃ s', performAll .standard first.steps s = .ok () s' ∧
        s'.builder.depth = s.builder.depth + top.length := by
  have pushed : ∀ {r : Rep} {e : Operand} {left : List Operand → Prop} {first : Script Rep},
      first.Pushes r → left [e] → first.all Step.isAside = true ∧ ∃ top, left top ∧
        ∀ s : Session, s.HasRoom first.steps.length →
          ∃ s', performAll .standard first.steps s = .ok () s' ∧
            s'.builder.depth = s.builder.depth + top.length :=
    fun hpushes hleft => ⟨hpushes.aside, _, hleft, fun s _ => hpushes.depth s⟩
  cases he with
  | literal c access =>
    cases hopen
    exact ⟨rfl, [], rfl, fun s _ => ⟨s, rfl, rfl⟩⟩
  | invoke routine returns hint proven access =>
    cases hopen with
    | nothing => exact ⟨rfl, [], rfl, fun s _ => ⟨s, rfl, rfl⟩⟩
    | invoke =>
      by_cases hvoid : returns = .void
      · subst hvoid
        exact ⟨rfl, [], .void, fun s => performAll_invoke routine .void⟩
      · refine ⟨rfl, _, holds_value hvoid, fun s hroom => ?_⟩
        have hinvoke := performAll_invoke routine returns hroom
        rwa [bne_iff_ne.2 hvoid] at hinvoke
  | @load p r h hint access =>
    cases hopen with
    | nothing => exact ⟨rfl, [], rfl, fun s _ => ⟨s, rfl, rfl⟩⟩
    | load =>
      refine pushed h.load (e := .value r) fun r' hr' => ?_
      rw [h.load.result] at hr'
      cases hr'
      exact holds_value h.ne_void
    | address hr haddress =>
      obtain ⟨q, hq⟩ := h.address haddress
      exact pushed hq rfl

/-- **An ordinary expression is evaluated in every session with room**: each plan for it that is
typed is carried out to its end. -/
theorem Expr.Ordinary.performAll (he : e.Ordinary) {α : Type} {plan : Script α}
    {Q : α → List Operand → Prop} (hplan : (standard T k).Supplies (e.kind.Opens T) plan Q)
    (hs : s.Sound) (hlabels : s.BranchesDefined) (hroom : s.HasRoom plan.steps.length) :
    ∃ s' top, Session.performAll .standard plan.steps s = .ok () s' ∧
      s'.builder.depth = s.builder.depth + top.length ∧ ∀ a, plan.result = .ok a → Q a top := by
  obtain ⟨first, left, hopen, rest, hsteps, hresult, hrest⟩ := hplan
  obtain ⟨haside, top, htop, hfirst⟩ := he.performAll_opening hopen
  rw [hsteps, List.length_append] at hroom
  obtain ⟨s₀, hperform, hdepth⟩ := hfirst s (hroom.mono (Nat.le_add_right _ _))
  have hs₀ : s₀.Sound := ((invariant_sound .standard).performAll _).of_eq_ok hs hperform
  have hroom₀ : s₀.HasRoom rest.steps.length :=
    (hroom.mono (Nat.add_le_add_right List.countP_le_length _)).performAll hperform
  have hlabels₀ : s₀.BranchesDefined := by
    obtain ⟨hdepths, hcount⟩ := labels_performAll haside hperform
    intro l hl
    rw [hcount]
    refine hlabels l ?_
    rwa [Builder.branchDepth?, hdepths] at hl
  obtain ⟨s', top', hperform', hdepth', hQ⟩ := performAll_leaves (hrest top htop)
    (by rw [hdepth]; exact Nat.le_add_left _ _) (.inr hlabels₀) hs₀ hroom₀
  refine ⟨s', top', ?_, by omega, fun a ha => hQ a (hresult ▸ ha)⟩
  rw [hsteps, performAll_append]
  exact bind_eq_ok.2 ⟨(), s₀, hperform, hperform'⟩

/-! ### Runs -/

/-- Plans that agree and are carried out in one session leave the same depth and call the same
routines. -/
theorem Scope.Agrees.effects (h : Agrees plan plan')
    (h₁ : performAll .standard plan.steps s = .ok () s₁)
    (h₂ : performAll .standard plan'.steps s = .ok () s₂)
    (hdepth₁ : ∀ r, plan.result = .ok r →
      s₁.builder.depth = s.builder.depth + if r = .void then 0 else 1)
    (hdepth₂ : ∀ r, plan'.result = .ok r →
      s₂.builder.depth = s.builder.depth + if r = .void then 0 else 1) (labels : Nat) :
    s₁.builder.depth = s₂.builder.depth ∧
      ((s₁.numbering labels).code plan.steps).filter Instr.isInvoke =
        ((s₂.numbering labels).code plan'.steps).filter Instr.isInvoke := by
  cases h with
  | same =>
    rw [h₁] at h₂
    cases h₂
    exact ⟨rfl, rfl⟩
  | quiet hresult hresult' hquiet hquiet' =>
    rw [hdepth₁ _ hresult, hdepth₂ _ hresult', filter_code_of_quiet hquiet,
      filter_code_of_quiet hquiet']
    exact ⟨rfl, rfl⟩

/-- A plan that saves work has no more instructions and declares no more temporaries. -/
theorem Scope.Saves.costs (h : Saves plan plan')
    (h₁ : performAll .standard plan.steps s = .ok () s₁)
    (h₂ : performAll .standard plan'.steps s = .ok () s₂) (labels : Nat) :
    ((s₁.numbering labels).code plan.steps).length ≤
        ((s₂.numbering labels).code plan'.steps).length ∧
      s₁.scratch.declared ≤ s₂.scratch.declared := by
  cases h with
  | same =>
    rw [h₁] at h₂
    cases h₂
    exact ⟨Nat.le_refl _, Nat.le_refl _⟩
  | saved _ _ hscratch _ _ hlength =>
    rw [Numbering.length_code, Numbering.length_code, scratch_performAll hscratch h₁]
    exact ⟨hlength, ((steady_declared .standard _).performAll _).of_eq_ok (Nat.le_refl _) h₂⟩

/-- **Options change what code costs, never what becomes of it.**  In every session with room, a
conversion of an ordinary expression ends under any two settings of the options in the same
representation or in the same error, at the same depth, with the same access mode and with the same
calls of routines in the same order.  Where every option that is on in one setting is on in the
other, the code under the other is no longer and declares no more temporaries.  An expression that
is read by reference for a value is converted by the same code. -/
theorem options_change_cost_only {T : ClassTable} {k : Option ClassId} {e : Expr}
    (he : e.Ordinary) {target : Rep} {o o₁ o₂ : Options} {s : Session}
    (hs : Reachable (standard T k) o s) (hlabels : s.BranchesDefined)
    (hroom₁ : s.HasRoom ((standard T k).convertExpr o₁ e target).steps.length)
    (hroom₂ : s.HasRoom ((standard T k).convertExpr o₂ e target).steps.length) :
    ∃ out s₁ s₂ code₁ code₂,
      run .standard ((standard T k).convertExpr o₁ e target) s = settled out s₁ ∧
      run .standard ((standard T k).convertExpr o₂ e target) s = settled out s₂ ∧
      s₁.builder.instrs.toList = s.builder.instrs.toList ++ code₁ ∧
      s₂.builder.instrs.toList = s.builder.instrs.toList ++ code₂ ∧
      s₁.builder.depth = s₂.builder.depth ∧
      (Request.convertExpr e target).exprAfter? = some (e.consumedAs target) ∧
      code₁.filter Instr.isInvoke = code₂.filter Instr.isInvoke ∧
      (o₁.Within o₂ → code₂.length ≤ code₁.length ∧
        s₂.scratch.declared ≤ s₁.scratch.declared) ∧
      (e.access = .readRef → target ≠ .void → code₁ = code₂) := by
  -- under either setting all steps are taken
  have runs : ∀ o, s.HasRoom ((standard T k).convertExpr o e target).steps.length →
      ∃ s', performAll .standard ((standard T k).convertExpr o e target).steps s = .ok () s' ∧
        ∀ r, ((standard T k).convertExpr o e target).result = .ok r →
          s'.builder.depth = s.builder.depth + if r = .void then 0 else 1 := by
    intro o hroom
    obtain ⟨s', top, hperform, hdepth, hholds⟩ :=
      he.performAll (supplies_convertExpr (T := T) (k := k) o e target) hs.sound hlabels hroom
    refine ⟨s', hperform, fun r hr => ?_⟩
    rw [hdepth, (hholds r hr).1.length_eq]
  obtain ⟨s₁, h₁, hdepth₁⟩ := runs o₁ hroom₁
  obtain ⟨s₂, h₂, hdepth₂⟩ := runs o₂ hroom₂
  have hagrees := agrees_convertExpr T k he o₁ o₂ target
  obtain ⟨hdepth, hinvokes⟩ := hagrees.effects h₁ h₂ hdepth₁ hdepth₂ s.builder.labels
  refine ⟨_, s₁, s₂, _, _, run_eq_settled h₁, hagrees.result_eq ▸ run_eq_settled h₂,
    performAll_code h₁, performAll_code h₂, hdepth, rfl, hinvokes, fun ho => ?_, fun ha ht => ?_⟩
  · exact (saves_convertExpr he ho).costs h₂ h₁ _
  · have hsame : ∀ o, (standard T k).convertExpr o e target =
        ((standard T k).evaluateAndReshape (e.consumedAs target) target).mapError
          (.inConversion e.staticRep target) := fun o => by
      rw [convertExpr, reshapeExpr, if_neg ht, if_pos]
      rw [Expr.consumedAs, if_neg ht, if_pos ha]
    simp only [hsame] at h₁ h₂ ⊢
    rw [h₁] at h₂
    cases h₂
    rfl

/-- A union in a local becomes text through its address, or through that of a copy. -/
theorem options_change_cost_only_text : ∃ (e : Expr) (s : Session), e.Ordinary ∧
    Reachable (standard .new none) .standard s ∧ s.BranchesDefined ∧
    s.HasRoom ((standard .new none).convertExpr .unoptimized e .text).steps.length ∧
    s.HasRoom ((standard .new none).convertExpr .standard e .text).steps.length ∧
    Options.unoptimized.Within .standard ∧
    ∃ out s₁ s₂ code₁ code₂,
      run .standard ((standard .new none).convertExpr .unoptimized e .text) s = settled out s₁ ∧
      run .standard ((standard .new none).convertExpr .standard e .text) s = settled out s₂ ∧
      s₁.builder.instrs.toList = s.builder.instrs.toList ++ code₁ ∧
      s₂.builder.instrs.toList = s.builder.instrs.toList ++ code₂ ∧
      s₁.builder.depth = s₂.builder.depth ∧ code₂.length ≤ code₁.length ∧
      s₂.scratch.declared ≤ s₁.scratch.declared := by
  let S := standard .new none
  let e : Expr := ⟨.load (.local 0 .value), .empty, none, .discard⟩
  let s := endOf ((Request.declare .value 1).answer S .standard) (.new none none)
  have he : e.Ordinary := .load ((Place.Variable.local 0).faithful (by decide)) _ _
  have hs : Reachable S .standard s := .request _ (.new none none)
  have hlabels : s.BranchesDefined := fun l hl => absurd rfl hl
  have hroom : ∀ n, n ≤ 5 → s.HasRoom n := by
    intro n hn
    have hsize : s.builder.locals.size = 1 := rfl
    refine ⟨?_, ?_, by rw [hsize, Builder.maxLocals]; omega⟩
    · rintro q ⟨⟩
    · rintro q ⟨⟩
  have hroom₁ := hroom (S.convertExpr .unoptimized e .text).steps.length (by decide +kernel)
  have hroom₂ := hroom (S.convertExpr .standard e .text).steps.length (by decide +kernel)
  have hwithin := Options.unoptimized_within .standard
  obtain ⟨out, s₁, s₂, code₁, code₂, h₁, h₂, hcode₁, hcode₂, hdepth, -, -, hcosts, -⟩ :=
    options_change_cost_only he hs hlabels hroom₁ hroom₂
  obtain ⟨hlength, hdeclared⟩ := hcosts hwithin
  exact ⟨e, s, he, hs, hlabels, hroom₁, hroom₂, hwithin, out, s₁, s₂, code₁, code₂, h₁, h₂, hcode₁,
    hcode₂, hdepth, hlength, hdeclared⟩

end Recast
