import Recast.Proofs.Congruence
import Recast.Proofs.Folding
import Recast.Proofs.PlaceLoads

/-!
# Types of requests

Over the standard run-time every plan is typed, not only that of a conversion.  What a place
emits is not checked, as its code does not tell a type; it is taken at its word: after it there
are operands that hold a value of the representation it reports, or the address of the
representation it is known to have.  The same goes for what a routine of the program returns.
All that follows is checked.

* `Expr.Kind.Opens` : the openings of the plan for an expression, with the operands they leave;
* `Scope.Supplies` : the typing of a plan that starts with an opening;
* `Scope.supplies_reshapeExpr` : **every conversion of an expression is typed**;
* `Request.supplies_plan?` : **and so is every request**.
-/

namespace Recast

/-! ### Openings -/

/-- The openings of the plan for an expression, each with what is known of the operands that it
leaves. -/
inductive Expr.Kind.Opens (T : ClassTable) :
    Expr.Kind → Script Rep → (List Operand → Prop) → Prop
  /-- Nothing is emitted. -/
  | nothing {kind : Expr.Kind} : Opens T kind (return .void) (· = [])
  /-- A place loads a value of the representation it reports. -/
  | load {p : Place} : Opens T (.load p) p.load fun top => ∀ r, p.load.result = .ok r →
      Holds T r top
  /-- A place loads the address of the representation it is known to have. -/
  | address {p : Place} {r : Rep} (hr : p.rep? = some r) (ha : p.hasAddress = true) :
      Opens T (.load p) p.loadAddress (· = [.address r])
  /-- A routine leaves what it returns. -/
  | invoke {routine : String} {returns : Rep} :
      Opens T (.invoke routine returns) (.invoke routine returns) (Holds T returns)

/-- Operands hold a value of a representation that may be used as another one. -/
def HoldsAs (T : ClassTable) (target r : Rep) (top : List Operand) : Prop :=
  Holds T r top ∧ T.assignable r target = true

theorem HoldsAs.holds {T : ClassTable} {target r : Rep} {top : List Operand}
    (h : HoldsAs T target r top) (ht : target.isReference = false) : Holds T target top := by
  rw [← ClassTable.eq_of_assignable h.2 ht]
  exact h.1

namespace Scope

/-- The steps of a plan are those of an opening, followed by steps that take the operands it
leaves to others; if the plan succeeds, its result and these operands are related. -/
def Supplies (S : Scope) (opens : Script Rep → (List Operand → Prop) → Prop) {α : Type}
    (p : Script α) (Q : α → List Operand → Prop) : Prop :=
  ∃ first left, opens first left ∧ ∃ rest : Script α, p.steps = first.steps ++ rest.steps ∧
    p.result = rest.result ∧ ∀ top, left top → S.Yields rest top Q

section Supplies

variable {S : Scope} {opens : Script Rep → (List Operand → Prop) → Prop} {α β : Type}
  {p : Script α} {f : α → Script β} {Q : α → List Operand → Prop} {Q' : β → List Operand → Prop}
  {left : List Operand → Prop} {top : List Operand} {r : Rep}

theorem Supplies.of_yields (hopen : opens (return .void) left)
    (h : ∀ top, left top → S.Yields p top Q) : S.Supplies opens p Q :=
  ⟨_, _, hopen, p, rfl, rfl, h⟩

/-- What follows an opening starts with the operands that the opening leaves. -/
theorem Supplies.of_opening {first : Script Rep} {f : Rep → Script α} (hopen : opens first left)
    (h : ∀ r, first.result = .ok r → ∀ top, left top → S.Yields (f r) top Q) :
    S.Supplies opens (first >>= f) Q := by
  cases hresult : first.result with
  | ok r =>
    refine ⟨first, left, hopen, f r, ?_, ?_, h r hresult⟩
    · rw [Script.steps_bind, hresult]
    · rw [Script.result_bind, hresult, Except.bind]
  | error e =>
    refine ⟨first, left, hopen, .fail e, ?_, ?_, fun _ _ => .fail e⟩
    · rw [Script.steps_bind, hresult, Script.steps_fail]
    · rw [Script.result_bind, hresult, Except.bind, Script.result_fail]

theorem Supplies.bind (h : S.Supplies opens p Q)
    (hf : ∀ a top', Q a top' → S.Yields (f a) top' Q') : S.Supplies opens (p >>= f) Q' := by
  obtain ⟨first, left, hopen, rest, hsteps, hresult, hrest⟩ := h
  refine ⟨first, left, hopen, rest >>= f, ?_, ?_, fun top htop => (hrest top htop).bind hf⟩
  · rw [Script.steps_bind, Script.steps_bind, hsteps, hresult, List.append_assoc]
  · rw [Script.result_bind, Script.result_bind, hresult]

theorem Yields.mapError (h : S.Yields p top Q) (g : ConvertError → ConvertError) :
    S.Yields (p.mapError g) top Q := by
  obtain ⟨top', htyped, hQ⟩ := h
  refine ⟨top', htyped, fun a ha => hQ a ?_⟩
  cases hp : p.result with
  | ok b => rwa [Script.result_mapError, hp] at ha
  | error e => simp [hp, Except.mapError] at ha

theorem Supplies.mapError (h : S.Supplies opens p Q) (g : ConvertError → ConvertError) :
    S.Supplies opens (p.mapError g) Q := by
  obtain ⟨first, left, hopen, rest, hsteps, hresult, hrest⟩ := h
  refine ⟨first, left, hopen, rest.mapError g, hsteps, ?_, fun top htop =>
    (hrest top htop).mapError g⟩
  rw [Script.result_mapError, Script.result_mapError, hresult]

theorem Supplies.imp {opens' : Script Rep → (List Operand → Prop) → Prop}
    (h : S.Supplies opens p Q) (ho : ∀ first left, opens first left → opens' first left) :
    S.Supplies opens' p Q := by
  obtain ⟨first, left, hopen, hrest⟩ := h
  exact ⟨first, left, ho first left hopen, hrest⟩

theorem Leaves.yields {p : Script Rep} (h : S.Leaves p top r)
    (hr : ∀ a, p.result = .ok a → a = r) : S.Yields p top fun a => Holds S.classes a :=
  h.mono fun a _ ha hheld => by
    rw [hr a ha]
    exact hheld

end Supplies

variable {T : ClassTable} {k : Option ClassId} {o : Options} {source target : Rep} {hint : Hint}
  {top : List Operand}

/-! ### Values -/

theorem yields_call (op : Op) {d : Demand} (hd : op.standard.demand? = some d) (h : d.Met T top) :
    (standard T k).Yields ((standard T k).call op) top fun r => Holds T r :=
  Leaves.yields (leaves_call rfl hd h) fun _ ha => by
    cases ha
    rfl

theorem yields_reshape_as (h : Holds T source top) :
    (standard T k).Yields ((standard T k).reshape source hint target) top (HoldsAs T target) :=
  (yields_reshape source hint target top h).mono fun r _ hr hheld => by
    rw [result_reshape, outcome] at hr
    split at hr <;> cases hr
    exact ⟨hheld, assignable_leaves⟩

theorem yields_narrow? {plan : Script Rep} (hplan : (standard T k).narrow? source hint = some plan)
    (h : Holds T source top) : (standard T k).Yields plan top fun r => Holds T r := by
  obtain ⟨op, hop, rfl⟩ := Option.map_eq_some_iff.1 hplan
  have hvoid : source ≠ .void := by
    rintro rfl
    cases source_of_accessor? hop <;> contradiction
  exact (yields_spill hvoid h).bind fun _ _ htop => by
    rw [htop]
    exact yields_call op (demand?_of_accessor? hop) .address

theorem yields_negate (h : Holds T .bool top) (b : Bool) :
    (standard T k).Yields (do
      if b then Script.negate
      return .bool : Script Rep) top fun r => Holds T r := by
  cases b with
  | false => exact .pure h
  | true =>
    obtain ⟨e, rfl, he⟩ := h.int32.fits (by decide)
    refine ⟨[.value .bool], fun σ => ?_, fun a ha => ?_⟩
    · have hpush : (standard T k).Typed [.emit (.ldcI4 0)] (e :: σ) (.value .int32 :: e :: σ) :=
        .emit fun _ => rfl
      exact hpush.append (.emit fun _ => if_pos (Operand.comparable_of_fits rfl he))
    · cases ha
      exact holds_value (by decide)

theorem yields_loadConstant? {c : Constant} {plan : Script Rep}
    (hfold : (standard T k).loadConstant? c target = some plan) :
    (standard T k).Yields plan [] (HoldsAs T target) :=
  (leaves_loadConstant? hfold).mono fun r _ hr hheld => by
    rw [result_loadConstant? hfold] at hr
    cases hr
    exact ⟨hheld, ClassTable.assignable_self _⟩

theorem yields_dereference (h : Holds T source top) :
    (standard T k).Yields ((standard T k).dereference source) top fun r => Holds T r := by
  unfold dereference
  split_ifs with hs
  · subst hs
    exact yields_call .aliasGetValue rfl (.value (by decide) h)
  · exact .pure h

theorem yields_widenInt (h : Holds T source top) :
    (standard T k).Yields (widenInt source) top fun r => Holds T r := by
  cases source with
  | bool | int32 =>
    exact (leaves_convI8 (T := T) (k := k) rfl h).bind fun _ _ h => .pure h
  | _ => exact .pure h

theorem yields_parseText (h : Holds T source top) :
    (standard T k).Yields ((standard T k).parseText source) top fun r => Holds T r := by
  cases source with
  | text => exact yields_call .textToNumber rfl (.value (by decide) h)
  | mutText =>
    exact (leaves_address (k := k) .mutTextToNumber rfl rfl (by decide) h).yields fun _ ha => by
      cases ha
      rfl
  | _ => exact .pure h

theorem yields_dropForNull (h : Holds T source top) (hr : target.isReference = true) :
    (standard T k).Yields (do
      Script.drop source
      Script.emit .ldNull
      return target : Script Rep) top fun r => Holds T r := by
  have hnull : Operand.null.fits T target = true := hr
  have hvoid : target ≠ .void := by
    rintro rfl
    cases hr
  exact (leaves_drop (S := standard T k) h).bind fun _ _ h =>
    (leaves_constant (fun _ _ => rfl) hnull hvoid h).bind fun _ _ h => .pure h

theorem yields_asArray (h : Holds T source top) :
    (standard T k).Yields ((standard T k).asArray source) top fun r => Holds T r := by
  refine (yields_dereference h).bind fun inner top' h => ?_
  have isInst : inner.isReference = true → (standard T k).Yields (do
      Script.emit (.isInst .array)
      return .array : Script Rep) top' fun r => Holds T r := by
    intro hr
    obtain ⟨e, rfl, he⟩ := h.fits (by rintro rfl; cases hr)
    have href : (e.isReference && Rep.array.isReference) = true := by
      rw [Operand.isReference_of_fits hr he]
      rfl
    have harray : (standard T k).Leaves (.emit (.isInst .array)) [e] .array :=
      leaves_emit [.value .array] (fun _ _ => if_pos href) (holds_value (by decide))
    exact harray.bind fun _ _ h => .pure h
  cases inner with
  | array => exact .pure h
  | value =>
    exact (leaves_apply_value .valueAsArray rfl rfl h).bind fun _ _ h => .pure h
  | text | «alias» | resource | callable | bytes | object _ => exact isInst rfl
  | _ => exact yields_dropForNull h rfl

theorem yields_asObject (h : Holds T source top) :
    (standard T k).Yields ((standard T k).asObject source) top fun r => Holds T r := by
  refine (yields_dereference h).bind fun inner top' h => ?_
  cases inner with
  | object _ | callable => exact .pure h
  | value => exact yields_call .valueAsObject rfl (.value (by decide) h)
  | _ => exact yields_dropForNull h rfl

/-! ### Expressions -/

theorem standard_of_addressOp? {op : Op} (h : addressOp? source target = some op) :
    op.standard.demand? = some (.address source) ∧ op.standard.returns = target := by
  unfold addressOp? at h
  split at h
  case h_6 =>
    split_ifs at h with hroot
    cases h
    exact ⟨rfl, hroot.symm⟩
  case h_7 => cases h
  all_goals
    cases h
    exact ⟨rfl, rfl⟩

section Expressions

variable {e : Expr} {p : Place}

theorem supplies_narrowPlace? {plan : Script Rep}
    (hplan : (standard T k).narrowPlace? p hint = some plan) :
    (standard T k).Supplies (Expr.Kind.Opens T (.load p)) plan fun r => Holds T r := by
  unfold narrowPlace? at hplan
  split at hplan
  case h_1 source hr ha =>
    obtain ⟨op, hop, rfl⟩ := Option.map_eq_some_iff.1 hplan
    refine .of_opening (.address hr ha) fun _ _ top htop => ?_
    rw [htop]
    exact yields_call op (demand?_of_accessor? hop) .address
  case h_2 => cases hplan

theorem supplies_readThroughAddress? {plan : Script Rep}
    (hplan : (standard T k).readThroughAddress? p target = some plan) :
    (standard T k).Supplies (Expr.Kind.Opens T (.load p)) plan (HoldsAs T target) := by
  unfold readThroughAddress? at hplan
  split at hplan
  case h_1 source hr ha =>
    obtain ⟨op, hop, rfl⟩ := Option.map_eq_some_iff.1 hplan
    refine .of_opening (.address hr ha) fun _ _ top htop => ?_
    rw [htop]
    obtain ⟨hd, hreturns⟩ := standard_of_addressOp? hop
    exact (yields_call op hd .address).mono fun r _ hr hheld => by
      cases hr
      exact ⟨hheld, hreturns ▸ ClassTable.assignable_self _⟩
  case h_2 => cases hplan

theorem supplies_loadAlias (p : Place) (hint : Hint) :
    (standard T k).Supplies (Expr.Kind.Opens T (.load p)) ((standard T k).loadAlias p hint)
      fun r => Holds T r := by
  unfold loadAlias
  split_ifs with h
  · refine .of_opening (.address h.1 h.2) fun _ _ top htop => ?_
    rw [htop]
    exact yields_call .valueEnsureAlias rfl .address
  · exact .of_opening .load fun source hsource top htop =>
      yields_reshape source hint .alias top (htop source hsource)

/-- **Every evaluation is typed.** -/
theorem supplies_evaluate (e : Expr) :
    (standard T k).Supplies (e.kind.Opens T) ((standard T k).evaluate e) fun r => Holds T r := by
  unfold evaluate
  cases e.kind with
  | literal c =>
    refine .of_yields .nothing fun top htop => ?_
    rw [htop]
    exact (leaves_evaluateLiteral c).yields fun r hr => by
      rw [result_evaluateLiteral] at hr
      cases hr
      rfl
  | load p =>
    dsimp only
    split_ifs
    · exact supplies_loadAlias p e.hint
    · have hload : (standard T k).Supplies (Expr.Kind.Opens T (.load p))
          (p.load >>= fun source => return source) fun r => Holds T r :=
        .of_opening .load fun source hsource top htop => .pure (htop source hsource)
      rwa [bind_pure] at hload
  | invoke routine returns =>
    have hinvoke : (standard T k).Supplies (Expr.Kind.Opens T (.invoke routine returns))
        (Script.invoke routine returns >>= fun source => return source) fun r => Holds T r :=
      .of_opening .invoke fun source hsource top htop => by
        cases hsource
        exact .pure htop
    rwa [bind_pure] at hinvoke

theorem supplies_folded? {plan : Script Rep}
    (hplan : (standard T k).folded? o e target = some plan) :
    (standard T k).Supplies (e.kind.Opens T) plan (HoldsAs T target) := by
  unfold folded? at hplan
  split_ifs at hplan
  obtain ⟨c, -, hfold⟩ := Option.bind_eq_some_iff.1 hplan
  refine .of_yields .nothing fun top htop => ?_
  rw [htop]
  exact yields_loadConstant? hfold

theorem supplies_typedRead? {plan : Script Rep}
    (hplan : (standard T k).typedRead? o e target = some plan) :
    (standard T k).Supplies (e.kind.Opens T) plan (HoldsAs T target) := by
  unfold typedRead? at hplan
  cases hkind : e.kind with
  | load p =>
    rw [hkind] at hplan
    dsimp only at hplan
    rw [Option.orElse_eq_orElse, Option.orElse_eq_or] at hplan
    rcases Option.or_eq_some_iff.1 hplan with hnarrow | ⟨-, hread⟩
    · split_ifs at hnarrow
      obtain ⟨narrowing, hnarrowing, rfl⟩ := Option.map_eq_some_iff.1 hnarrow
      exact (supplies_narrowPlace? hnarrowing).bind fun _ _ => yields_reshape_as
    · split_ifs at hread
      exact supplies_readThroughAddress? hread
  | literal c | invoke routine returns =>
    rw [hkind] at hplan
    cases hplan

theorem supplies_evaluateAndReshape (e : Expr) (target : Rep) :
    (standard T k).Supplies (e.kind.Opens T) ((standard T k).evaluateAndReshape e target)
      (HoldsAs T target) := by
  refine (supplies_evaluate e).bind fun source top htop => ?_
  split_ifs with h
  · rw [h.1] at htop
    rw [h.2.1]
    exact (yields_call .valueFromAlias rfl (.value (by decide) htop)).mono fun r _ hr hheld => by
      cases hr
      exact ⟨hheld, ClassTable.assignable_self _⟩
  · exact yields_reshape_as htop

theorem supplies_discardExpr (e : Expr) :
    (standard T k).Supplies (e.kind.Opens T) ((standard T k).discardExpr o e)
      (HoldsAs T .void) := by
  unfold discardExpr
  split_ifs
  · refine .of_yields .nothing fun top htop => ?_
    rw [htop]
    exact .pure ⟨.void, ClassTable.assignable_self _⟩
  · exact (supplies_evaluate e).bind fun _ _ htop =>
      (leaves_drop htop).bind fun _ _ h => .pure ⟨h, ClassTable.assignable_self _⟩

/-- **Every conversion of an expression is typed.** -/
theorem supplies_reshapeExpr (o : Options) (e : Expr) (target : Rep) :
    (standard T k).Supplies (e.kind.Opens T) ((standard T k).reshapeExpr o e target)
      (HoldsAs T target) := by
  unfold reshapeExpr
  split_ifs with ht
  · rw [ht]
    exact supplies_discardExpr e
  · exact supplies_evaluateAndReshape e target
  · cases hfolded : (standard T k).folded? o e target with
    | some plan => exact supplies_folded? hfolded
    | none =>
      cases hread : (standard T k).typedRead? o e target with
      | some plan => exact supplies_typedRead? hread
      | none => exact supplies_evaluateAndReshape e target

theorem supplies_convertExpr (o : Options) (e : Expr) (target : Rep) :
    (standard T k).Supplies (e.kind.Opens T) ((standard T k).convertExpr o e target)
      (HoldsAs T target) :=
  (supplies_reshapeExpr o (e.consumedAs target) target).mapError _

theorem supplies_numberToDouble (o : Options) (e : Expr) :
    (standard T k).Supplies (e.kind.Opens T) ((standard T k).numberToDouble o e)
      fun r => Holds T r := by
  unfold numberToDouble
  dsimp only
  split
  case h_1 x _ =>
    refine .of_yields .nothing fun top htop => ?_
    rw [htop]
    have hpush : (standard T k).Leaves (Script.emit (.ldcR8 x)) [] .float64 :=
      leaves_push (fun _ _ => rfl) (by decide) rfl
    exact hpush.bind fun _ _ h => .pure h
  case h_2 =>
    exact (supplies_evaluate e.readByValue).bind fun source top htop =>
      (yields_reshape source e.hint .float64 top htop).mapError _

theorem supplies_castToArray (e : Expr) :
    (standard T k).Supplies (e.kind.Opens T) ((standard T k).castToArray e)
      fun r => Holds T r := by
  refine ((supplies_evaluate e.readByValue).bind fun source top htop =>
    (yields_dereference htop).bind fun inner top' hinner => ?_).mapError _
  have hunion : (standard T k).Yields (do
      let _ ← (standard T k).reshape inner e.hint.withoutRef .value
      (standard T k).callByAddress .value .valueToArray) top' fun r => Holds T r :=
    (yields_reshape_as hinner).bind fun _ _ h =>
      (leaves_address .valueToArray rfl rfl (by decide) (h.holds rfl)).yields fun _ ha => by
        cases ha
        rfl
  cases inner with
  | array => exact .pure hinner
  | object c =>
    dsimp only
    split_ifs
    · exact yields_call .convertibleToArray rfl (.value (by decide) (hinner.root rfl))
    · exact hunion
  | _ => exact hunion

theorem supplies_convertExprToBool (o : Options) (e : Expr) (negated : Bool) :
    (standard T k).Supplies (e.kind.Opens T) ((standard T k).convertExprToBool o e negated)
      fun r => Holds T r :=
  (supplies_convertExpr o e .bool).bind fun _ _ htop => yields_negate (htop.holds rfl) negated

end Expressions

end Scope

/-! ### Requests -/

/-- The operands hold what is answered. -/
def Reply.Holds (T : ClassTable) : Reply → List Operand → Prop
  | .rep r, top | .rep? (some r), top => Recast.Holds T r top
  | _, _ => True

namespace Request

/-- The representation of the value on the stack that a request is about. -/
def operand? : Request → Option Rep
  | convert source _ _ | convertToBool source _ _ | asArray source | asObject source => some source
  | widenInt source | parseText source | dereference source | narrow source _ => some source
  | _ => none

/-- What a request evaluates. -/
def kind? : Request → Option Expr.Kind
  | narrowPlace p _ => some (.load p)
  | loadConstant c _ => some (.literal c)
  | evaluate e | convertExpr e _ | convertExprToBool e _ | numberToDouble e | castToArray e =>
    some e.kind
  | _ => none

/-- The openings of the plan for a request, each with what is known of the operands that are
there afterwards. -/
inductive Opens (T : ClassTable) (q : Request) : Script Rep → (List Operand → Prop) → Prop
  /-- The value is on the stack. -/
  | operand {source : Rep} (h : q.operand? = some source) :
    Opens T q (return .void) (Holds T source)
  /-- The request evaluates something. -/
  | kind {kind : Expr.Kind} {first : Script Rep} {left : List Operand → Prop}
      (h : q.kind? = some kind) (hopen : kind.Opens T first left) : Opens T q first left

variable {T : ClassTable} {k : Option ClassId} {o : Options} {q : Request}

theorem Opens.mem_own {first : Script Rep} {left : List Operand → Prop}
    (h : q.Opens T first left) : first ∈ q.own := by
  have evaluated : ∀ {e : Expr}, e.kind.Opens T first left → first ∈ e.own := by
    intro e hopen
    unfold Expr.own
    cases hkind : e.kind <;> rw [hkind] at hopen <;> cases hopen <;> simp [Place.own]
  cases h with
  | operand h => cases q <;> first | exact List.mem_cons_self | cases h
  | kind h hopen =>
    cases q with
    | narrowPlace p hint =>
      cases h
      cases hopen <;> simp [own, Place.own]
    | loadConstant c target =>
      cases h
      cases hopen
      exact List.mem_cons_self
    | evaluate e | convertExpr e _ | convertExprToBool e _ | numberToDouble e | castToArray e =>
      cases h
      exact evaluated hopen
    | _ => cases h

section Plans

open Scope

variable {opens : Script Rep → (List Operand → Prop) → Prop} {Q : Rep → List Operand → Prop}

theorem supplies_rep {p : Script Rep} (h : (standard T k).Supplies opens p Q)
    (hQ : ∀ r top, Q r top → Holds T r top) :
    (standard T k).Supplies opens (.rep <$> p) (Reply.Holds T) :=
  h.bind fun r top hr => .pure (hQ r top hr)

theorem supplies_optionally {p? : Option (Script Rep)} {left : List Operand → Prop}
    (hnone : opens (return .void) left)
    (h : ∀ p, p? = some p → (standard T k).Supplies opens p Q)
    (hQ : ∀ r top, Q r top → Holds T r top) :
    (standard T k).Supplies opens (optionally p?) (Reply.Holds T) := by
  cases p? with
  | none => exact .of_yields hnone fun _ _ => .pure trivial
  | some p => exact (h p rfl).bind fun r top hr => .pure (hQ r top hr)

/-- **Every request is typed**, and leaves what it answers. -/
theorem supplies_plan? {plan : Script Reply} (hplan : q.plan? (standard T k) o = some plan) :
    (standard T k).Supplies (q.Opens T) plan (Reply.Holds T) := by
  have held : ∀ {target} r top, HoldsAs T target r top → Holds T r top := fun _ _ h => h.1
  have evaluated : ∀ {kind : Expr.Kind} {p : Script Rep} {Q : Rep → List Operand → Prop},
      q.kind? = some kind → (standard T k).Supplies (kind.Opens T) p Q →
      (standard T k).Supplies (q.Opens T) p Q :=
    fun hkind h => h.imp fun _ _ hopen => .kind hkind hopen
  have converted : ∀ {source : Rep} {p : Script Rep}, q.operand? = some source →
      (∀ top, Holds T source top → (standard T k).Yields p top fun r => Holds T r) →
      (standard T k).Supplies (q.Opens T) (.rep <$> p) (Reply.Holds T) :=
    fun hsource h => supplies_rep (.of_yields (.operand hsource) h) fun _ _ => id
  cases q with
  | convert source hint target =>
    cases hplan
    exact converted rfl fun top htop => (yields_reshape source hint target top htop).mapError _
  | convertToBool source hint b =>
    cases hplan
    exact converted rfl fun top htop => ((yields_reshape_as htop).mapError _).bind fun _ _ h =>
      yields_negate (h.holds rfl) b
  | asArray source =>
    cases hplan
    exact converted rfl fun _ => yields_asArray
  | asObject source =>
    cases hplan
    exact converted rfl fun _ => yields_asObject
  | widenInt source =>
    cases hplan
    exact converted rfl fun _ => yields_widenInt
  | parseText source =>
    cases hplan
    exact converted rfl fun _ => yields_parseText
  | dereference source =>
    cases hplan
    exact converted rfl fun _ => yields_dereference
  | narrow source hint =>
    cases hplan
    exact supplies_optionally (.operand rfl) (fun p hp => .of_yields (.operand rfl) fun top htop =>
      yields_narrow? hp htop) fun _ _ => id
  | narrowPlace p hint =>
    cases hplan
    exact supplies_optionally (.kind rfl .nothing)
      (fun p hp => evaluated rfl (supplies_narrowPlace? hp)) fun _ _ => id
  | loadConstant c target =>
    cases hplan
    have hload : ∀ p, (standard T k).loadConstant? c target = some p →
        (standard T k).Supplies (Opens T (loadConstant c target)) p (HoldsAs T target) :=
      fun p hp => .of_yields (.kind rfl .nothing) fun top htop => by
        rw [htop]
        exact yields_loadConstant? hp
    exact supplies_optionally (.kind rfl .nothing) hload held
  | evaluate e =>
    cases hplan
    exact supplies_rep (evaluated rfl (supplies_evaluate e)) fun _ _ => id
  | convertExpr e target =>
    cases hplan
    exact supplies_rep (evaluated rfl (supplies_convertExpr o e target)) held
  | convertExprToBool e b =>
    cases hplan
    exact supplies_rep (evaluated rfl (supplies_convertExprToBool o e b)) fun _ _ => id
  | numberToDouble e =>
    cases hplan
    exact supplies_rep (evaluated rfl (supplies_numberToDouble o e)) fun _ _ => id
  | castToArray e =>
    cases hplan
    exact supplies_rep (evaluated rfl (supplies_castToArray e)) fun _ _ => id
  | emit _ | intern _ | declare _ _ | label | endStatement | spill _ => cases hplan

end Plans

end Request

end Recast
