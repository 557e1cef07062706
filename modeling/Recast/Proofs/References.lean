import Recast.Proofs.AliasTransparency
import Recast.Proofs.OptionCosts
import Recast.Proofs.StackDepth

/-!
# Reading by reference

An expression that is read by reference gives an alias.  The ordinary rules would dereference it,
narrow what it leads to, or copy it; so such a read keeps out of their way: nothing is folded, no
place is read through its address for its value, and only a union in storage that has an address is
made to hold an alias itself.

* `Place.OnlyLoads` : places that push what they hold, or its address, and do no more;
* `ReferenceUse` : what a reference is read for;
* `Scope.keeps_reshape` : **to make an alias of a value never follows one**;
* `Session.BranchesDefined.performAll` : a plan branches to labels that have been defined;
* `reference_kept` : **a read by reference keeps the reference**, each time in the same way.
-/

namespace Recast

open Scope Session

/-! ### Places that load -/

/-- The step pushes one operand, and does no more than that. -/
def Step.isLoad : Step → Bool
  | .emit i => i.isLoad
  | .text _ => true
  | _ => false

/-- A plan that loads, and gives a representation. -/
structure Script.OnlyLoads (p : Script Rep) (r : Rep) : Prop where
  /-- It gives the representation. -/
  result : p.result = .ok r
  /-- All steps load. -/
  loads : p.all Step.isLoad = true
  /-- There is something to load. -/
  ne_nil : p.steps ≠ []

/-- A place that emits only loads, and whose value has a representation, whatever is known of it
beforehand. -/
structure Place.OnlyLoads (p : Place) (r : Rep) : Prop where
  /-- There is a value. -/
  ne_void : r ≠ .void
  /-- The value is loaded. -/
  load : p.load.OnlyLoads r
  /-- An address is loaded, if there is one. -/
  address : p.hasAddress = true → ∃ q, p.loadAddress.OnlyLoads q

section Loads

variable {t : Step} {ts : List Step} {C : Catalog} {s s' : Session} {u : Unit}

theorem Step.isAside_of_isLoad (h : t.isLoad = true) : t.isAside = true := by
  cases t with
  | emit i => exact Instr.isAside_of_isLoad h
  | text => rfl
  | _ => cases h

theorem Step.branches_of_isLoad (h : t.isLoad = true) : t.branches = false := by
  cases t <;> first | rfl | cases h

theorem Step.forked_of_branches (h : ∀ t ∈ ts, t.branches = false) : Forked ts = true := by
  induction ts with
  | nil => rfl
  | cons t ts ih =>
    obtain ⟨ht, hts⟩ := List.forall_mem_cons.1 h
    rw [forked_cons (by rintro rfl; cases ht), ht, ih hts]
    rfl

/-- **Loads are emitted wherever there is room**, and each pushes an operand. -/
theorem Session.performAll_loads (hts : ts.all Step.isLoad = true) (hroom : s.HasRoom ts.length) :
    ∃ s', performAll C ts s = .ok () s' ∧ s'.builder.depth = s.builder.depth + ts.length := by
  induction ts generalizing s with
  | nil => exact ⟨s, rfl, rfl⟩
  | cons t ts ih =>
    rw [List.all_cons, Bool.and_eq_true] at hts
    obtain ⟨s₁, ht, hdepth, hroom₁⟩ : ∃ s₁, perform C t s = .ok () s₁ ∧
        s₁.builder.depth = s.builder.depth + 1 ∧ s₁.HasRoom ts.length := by
      cases t with
      | emit i =>
        obtain ⟨s₁, hemit, hdepth, hkeep⟩ := emit_of_isLoad (C := C) hts.1 s
        exact ⟨s₁, hemit, hdepth, hkeep _ (hroom.mono (Nat.le_succ _))⟩
      | text x =>
        obtain ⟨j, s₀, hj, hroom₀⟩ := hroom.internText x
        obtain ⟨-, -, hb⟩ := internText_eq_ok hj
        obtain ⟨s₁, hemit, hdepth, hkeep⟩ := emit_of_isLoad (C := C) (i := .ldStr j) rfl s₀
        refine ⟨s₁, bind_eq_ok.2 ⟨j, s₀, attempt_eq_ok.2 hj, hemit⟩, ?_, hkeep _ hroom₀⟩
        rw [hdepth, hb]
      | _ => cases hts.1
    obtain ⟨s', hrest, hdepth'⟩ := ih hts.2 hroom₁
    refine ⟨s', bind_eq_ok.2 ⟨(), s₁, ht, hrest⟩, ?_⟩
    rw [hdepth', hdepth, List.length_cons, Nat.add_assoc, Nat.add_comm 1]

end Loads

/-! ### Labels stay defined -/

section Labels

variable {C : Catalog} {s s' : Session} {ts : List Step} {u : Unit}

theorem Session.BranchesDefined.emit {i : Instr} (hs : s.BranchesDefined)
    (h : Session.emit C i s = .ok u s')
    (hi : ∀ l, i.target? = some l → l.index < s.builder.labels) : s'.BranchesDefined := by
  obtain ⟨b, hb, rfl⟩ := emit_eq_ok h
  intro l hl
  change b.branchDepth? l ≠ none at hl
  change l.index < b.labels
  rw [(instrs_emit hb).2]
  rw [Builder.branchDepth?_of_emit hb] at hl
  cases hold : s.builder.branchDepth? l with
  | some d => exact hs l (by simp [hold])
  | none =>
    refine hi l ?_
    by_contra hne
    rw [hold, if_neg hne] at hl
    exact hl rfl

theorem Session.BranchesDefined.congr (hs : s.BranchesDefined)
    (hdepths : s'.builder.branchDepths = s.builder.branchDepths)
    (hlabels : s.builder.labels ≤ s'.builder.labels) : s'.BranchesDefined := by
  intro l hl
  rw [Builder.branchDepth?, hdepths] at hl
  exact Nat.lt_of_lt_of_le (hs l hl) hlabels

theorem Session.BranchesDefined.perform {t : Step} (hs : s.BranchesDefined)
    (h : Session.perform C t s = .ok u s') (ht : ∀ i, t = .emit i → i.target? = none)
    (hlabels : t.branches = true → t ≠ .fork → 0 < s.builder.labels) : s'.BranchesDefined := by
  have silent : ∀ {i : Instr} {s₀ : Session}, s₀.BranchesDefined → i.target? = none →
      Session.emit C i s₀ = .ok u s' → s'.BranchesDefined := fun hs₀ hi hemit =>
    hs₀.emit hemit fun l hl => by
      rw [hi] at hl
      cases hl
  cases t with
  | emit i => exact silent hs (ht i rfl) h
  | text x | invoke x b =>
    obtain ⟨j, s₀, hj, hemit⟩ := bind_eq_ok.1 h
    obtain ⟨-, -, hb⟩ := internText_eq_ok (attempt_eq_ok.1 hj)
    exact silent (hs.congr (by rw [hb]) (by rw [hb])) rfl hemit
  | reserve r =>
    obtain ⟨j, s₀, hj, hpure⟩ := bind_eq_ok.1 h
    cases hpure
    have hb := builder_acquire hj
    exact hs.congr (by rw [hb]) (by rw [hb])
  | store r | address r =>
    obtain ⟨j, s₀, hj, hemit⟩ := bind_eq_ok.1 h
    have hb := builder_acquire hj
    exact silent (hs.congr (by rw [hb]) (by rw [hb])) rfl hemit
  | fork =>
    cases h
    exact hs.congr rfl (Nat.le_add_right _ 2)
  | brAbsent | brEnd =>
    obtain ⟨_, _, hget, hemit⟩ := bind_eq_ok.1 h
    cases hget
    refine hs.emit hemit fun l hl => ?_
    cases hl
    have := hlabels rfl (by simp)
    simp only [forkLabels]
    omega
  | markAbsent | markEnd =>
    obtain ⟨_, _, hget, hemit⟩ := bind_eq_ok.1 h
    cases hget
    exact silent hs rfl hemit

/-- **A plan branches to labels that have been defined**, if its own branches follow a fork and it
emits no others. -/
theorem Session.BranchesDefined.performAll (hs : s.BranchesDefined)
    (h : performAll C ts s = .ok u s') (hts : ∀ i, .emit i ∈ ts → i.target? = none)
    (hforked : Step.Forked ts = true ∨ 0 < s.builder.labels) : s'.BranchesDefined := by
  induction ts generalizing s with
  | nil =>
    cases h
    exact hs
  | cons t ts ih =>
    obtain ⟨_, s₀, ht, hrest⟩ := bind_eq_ok.1 h
    have hlabels := (perform_eq_ok ht).2.1
    have hs₀ : s₀.BranchesDefined := by
      refine hs.perform ht (fun i hi => hts i (by simp [hi])) fun hbranch hne => ?_
      refine hforked.resolve_left fun hforked => ?_
      rw [Step.forked_cons hne, hbranch] at hforked
      cases hforked
    refine ih hs₀ hrest (fun i hi => hts i (List.mem_cons_of_mem _ hi)) ?_
    -- either the step defines labels, or the rest is forked as well
    by_cases hfork : t = .fork
    · subst hfork
      cases ht
      exact .inr (Nat.succ_pos _)
    · have hsame : s₀.builder.labels = s.builder.labels := by
        rw [hlabels]
        cases t <;> first | rfl | exact absurd rfl hfork
      rw [hsame]
      refine hforked.imp_left fun hforked => ?_
      rw [Step.forked_cons hfork, Bool.and_eq_true] at hforked
      exact hforked.2

end Labels

/-! ### What a reference is read for -/

/-- What an expression that is read by reference is evaluated for. -/
inductive ReferenceUse where
  /-- For whatever it gives. -/
  | evaluate
  /-- For an alias. -/
  | alias
  /-- For the dynamic union, which holds the reference. -/
  | value

namespace ReferenceUse

/-- The request that evaluates an expression for a use. -/
def request : ReferenceUse → Expr → Request
  | evaluate, e => .evaluate e
  | «alias», e => .convertExpr e .alias
  | value, e => .convertExpr e .value

/-- The representation that is left. -/
def rep : ReferenceUse → Rep
  | evaluate | «alias» => .alias
  | value => .value

/-- What is called on the alias in the end. -/
def last : ReferenceUse → List Instr
  | evaluate | «alias» => []
  | value => [.call .valueFromAlias]

/-- The steps that read a place by reference for a use. -/
def steps (S : Scope) (p : Place) (hint : Hint) (u : ReferenceUse) : List Step :=
  (S.loadAlias p hint).steps ++ u.last.map .emit

end ReferenceUse

/-- The step follows an alias. -/
def Step.dereferences : Step → Bool
  | .emit i => i.op? == some .aliasGetValue
  | _ => false

section Uses

open Script

variable {T : ClassTable} {k : Option ClassId} {o : Options} {p : Place} {r : Rep} {hint : Hint}
  {source : Rep}

theorem Step.dereferences_of_isLoad {t : Step} (h : t.isLoad = true) :
    (!t.dereferences) = true := by
  cases t with
  | emit i => cases i <;> first | rfl | cases h
  | _ => rfl

theorem Scope.keeps_intoTarget (hs : source ≠ .alias) :
    ((standard T k).intoTarget (standard T k).reshape source hint .alias).all
      (!·.dereferences) = true := by
  cases source with
  | «alias» => exact absurd rfl hs
  | nullable p =>
    rw [intoTarget_nullable p Rep.noConfusion fun _ => Rep.noConfusion]
    cases p <;> rfl
  | _ => rfl

/-- **To make an alias of a value never follows one.** -/
theorem Scope.keeps_reshape (source : Rep) (hint : Hint) :
    ((standard T k).reshape source hint .alias).all (!·.dereferences) = true := by
  suffices ∀ source hint target, target = .alias →
      ((standard T k).reshape source hint target).all (!·.dereferences) = true from
    this source hint .alias rfl
  refine reshape_induction (S := standard T k) standard_resolvesAliases
    (P := fun source hint target => target = .alias →
      ((standard T k).reshape source hint target).all (!·.dereferences) = true)
    fun source hint target ih => ?_
  rintro rfl
  rw [reshape_eq standard_resolvesAliases]
  apply reshapeBy_elim (P := fun plan : Script Rep => plan.all (!·.dereferences) = true)
  case stay => exact fun _ => rfl
  case discard => exact fun _ h => Rep.noConfusion h
  case behind => exact fun _ h => absurd rfl h
  case assign => exact fun _ _ _ _ => rfl
  case narrow =>
    intro op hop _ _
    refine all_bind ?_ fun narrowed _ => ih _ _ _ (.narrowed hop) rfl
    unfold accessor? at hop
    split at hop
    · cases hop
    · split at hop <;> cases hop <;> rfl
  case into => exact fun _ _ hs _ _ => keeps_intoTarget hs

theorem Scope.result_reshape_alias (source : Rep) (hint : Hint) :
    ((standard T k).reshape source hint .alias).result = .ok .alias := by
  rw [result_reshape, outcome_of_ne_callable (by decide)]
  exact congrArg _ (ClassTable.eq_of_assignable_alias assignable_leaves)

namespace Place.OnlyLoads

variable (hp : p.OnlyLoads r)

include hp

/-- A union in storage is made to hold an alias, if it has an address; any other value is loaded and
an alias made of it. -/
theorem steps_loadAlias : ((standard T k).loadAlias p hint).steps =
    if p.rep? = some .value ∧ p.hasAddress then
      p.loadAddress.steps ++ [.emit (.call .valueEnsureAlias)]
    else p.load.steps ++ ((standard T k).reshape r hint .alias).steps := by
  unfold loadAlias
  split_ifs with h
  · obtain ⟨q, hq⟩ := hp.address h.2
    rw [steps_bind, hq.result]
    rfl
  · rw [steps_bind, hp.load.result]

theorem result_loadAlias : ((standard T k).loadAlias p hint).result = .ok .alias := by
  unfold loadAlias
  split_ifs with h
  · obtain ⟨q, hq⟩ := hp.address h.2
    rw [result_bind, hq.result]
    rfl
  · rw [result_bind, hp.load.result]
    exact result_reshape_alias r hint

theorem keeps_loadAlias :
    ((standard T k).loadAlias p hint).all (!·.dereferences) = true := by
  have loads : ∀ {q : Script Rep} {r : Rep}, q.OnlyLoads r →
      q.steps.all (!·.dereferences) = true := fun hq =>
    all_mono (fun _ => Step.dereferences_of_isLoad) hq.loads
  rw [all, hp.steps_loadAlias]
  split_ifs with h
  · obtain ⟨q, hq⟩ := hp.address h.2
    rw [List.all_append, loads hq]
    rfl
  · rw [List.all_append, loads hp.load, Bool.true_and]
    exact keeps_reshape r hint

variable (hint) in
theorem branches_loadAlias : Step.Forked ((standard T k).loadAlias p hint).steps = true ∧
    ((∀ t ∈ ((standard T k).loadAlias p hint).steps, t.branches = false) ∨
      ∃ n, r = .nullable n) ∧
    ∀ i, .emit i ∈ ((standard T k).loadAlias p hint).steps → i.target? = none := by
  have loads : ∀ {q : Script Rep} {r : Rep}, q.OnlyLoads r →
      (∀ t ∈ q.steps, t.branches = false) ∧ ∀ i, .emit i ∈ q.steps → i.target? = none :=
    fun hq => ⟨fun t ht => Step.branches_of_isLoad (all_iff.1 hq.loads t ht), fun i hi => by
      have hload : i.isLoad = true := all_iff.1 hq.loads _ hi
      cases i <;> first | rfl | cases hload⟩
  rw [hp.steps_loadAlias]
  split_ifs with h
  · obtain ⟨q, hq⟩ := hp.address h.2
    obtain ⟨hbranches, htargets⟩ := loads hq
    have hall : ∀ t ∈ p.loadAddress.steps ++ [.emit (.call .valueEnsureAlias)],
        t.branches = false := by
      simpa [or_imp, forall_and, Step.branches] using hbranches
    refine ⟨Step.forked_of_branches hall, .inl hall, fun i hi => ?_⟩
    rcases List.mem_append.1 hi with hi | hi
    · exact htargets i hi
    · cases List.mem_singleton.1 hi
      rfl
  · obtain ⟨hbranches, htargets⟩ := loads hp.load
    have hnamed := (congruence_named (standard T k)).reshape r hint .alias
    refine ⟨Step.forked_append (Step.forked_of_branches hbranches) hnamed.2, ?_, fun i hi => ?_⟩
    · have hstraight : (∀ t ∈ ((standard T k).reshape r hint .alias).steps, t.branches = false) ∨
          ∃ n, r = .nullable n := isStraight_reshape_or id
      exact hstraight.imp_left fun h => List.forall_mem_append.2 ⟨hbranches, h⟩
    · rcases List.mem_append.1 hi with hi | hi
      · exact htargets i hi
      · have hsymbolic := hnamed.1 _ hi
        cases i <;> first | rfl | cases hsymbolic

theorem performAll_opening {first : Script Rep} {left : List Operand → Prop}
    (hopen : (Expr.Kind.load p).Opens T first left) {s : Session}
    (hroom : s.HasRoom first.steps.length) :
    first.all Step.isAside = true ∧ ∃ top s', left top ∧
      performAll .standard first.steps s = .ok () s' ∧ top.length ≤ s'.builder.depth := by
  have loads : ∀ {q : Script Rep} {r : Rep}, q.OnlyLoads r → s.HasRoom q.steps.length →
      q.all Step.isAside = true ∧ ∃ s', performAll .standard q.steps s = .ok () s' ∧
        1 ≤ s'.builder.depth := by
    intro q r hq hroom
    obtain ⟨s', hperform, hdepth⟩ := performAll_loads (C := .standard) hq.loads hroom
    have hpos := List.length_pos_iff.2 hq.ne_nil
    exact ⟨all_mono (fun _ => Step.isAside_of_isLoad) hq.loads, s', hperform, by omega⟩
  cases hopen with
  | nothing => exact ⟨rfl, [], s, rfl, rfl, Nat.zero_le _⟩
  | load =>
    obtain ⟨haside, s', hperform, hdepth⟩ := loads hp.load hroom
    refine ⟨haside, [.value r], s', fun q hq => ?_, hperform, hdepth⟩
    rw [hp.load.result] at hq
    cases hq
    exact holds_value hp.ne_void
  | @address _ q hq haddress =>
    obtain ⟨q', hload⟩ := hp.address haddress
    obtain ⟨haside, s', hperform, hdepth⟩ := loads hload hroom
    exact ⟨haside, [.address q], s', rfl, hperform, hdepth⟩

end Place.OnlyLoads

variable (hint) in
/-- The plan to read a place by reference does not depend on the options or on what is known of the
value. -/
theorem ReferenceUse.plan?_eq (hp : p.OnlyLoads r) (u : ReferenceUse) (proven : Option Constant) :
    ∃ plan, (u.request ⟨.load p, hint, proven, .readRef⟩).plan? (standard T k) o = some plan ∧
      plan.steps = u.steps (standard T k) p hint ∧ plan.result = .ok (.rep u.rep) := by
  have hresult : ((standard T k).loadAlias p hint).result = .ok .alias := hp.result_loadAlias
  have hconvert : ∀ target : Rep, target ≠ .void → (standard T k).convertExpr o
        ⟨.load p, hint, proven, .readRef⟩ target =
      Script.mapError (.inConversion (p.rep?.getD .value) target)
        ((standard T k).loadAlias p hint >>= fun source =>
          if source = .alias ∧ target = .value ∧ Access.readRef = .readRef then
            (standard T k).call .valueFromAlias
          else (standard T k).reshape source hint target) := by
    intro target ht
    have hconsumed : (⟨.load p, hint, proven, .readRef⟩ : Expr).consumedAs target =
        ⟨.load p, hint, proven, .readRef⟩ := by
      simp [Expr.consumedAs, ht]
    rw [convertExpr, hconsumed, reshapeExpr, if_neg ht, if_pos rfl]
    rfl
  cases u with
  | evaluate =>
    refine ⟨_, rfl, ?_, ?_⟩
    · rw [steps_map]
      exact (List.append_nil _).symm
    · rw [result_map]
      change ((standard T k).loadAlias p hint).result.map Reply.rep = _
      rw [hresult]
      rfl
  | «alias» =>
    have hstay : (standard T k).reshape .alias hint .alias = pure .alias := by
      rw [reshape_eq standard_resolvesAliases, reshapeBy, if_pos rfl]
    refine ⟨_, rfl, ?_, ?_⟩
    · rw [steps_map, hconvert .alias (by decide), steps_mapError, steps_bind, hresult]
      simp [hstay, ReferenceUse.steps, ReferenceUse.last]
    · rw [result_map, hconvert .alias (by decide), result_mapError, result_bind, hresult]
      simp only [Except.bind, hstay]
      exact rfl
  | value =>
    refine ⟨_, rfl, ?_, ?_⟩
    · rw [steps_map, hconvert .value (by decide), steps_mapError, steps_bind, hresult]
      rfl
    · rw [result_map, hconvert .value (by decide), result_mapError, result_bind, hresult]
      rfl

/-- The plan to read a place by reference is carried out wherever there is room, and branches to
labels that have been defined. -/
theorem ReferenceUse.performAll (hp : p.OnlyLoads r) (u : ReferenceUse) {proven : Option Constant}
    {plan : Script Reply}
    (hplan : (u.request ⟨.load p, hint, proven, .readRef⟩).plan? (standard T k) o = some plan)
    (hsteps : plan.steps = u.steps (standard T k) p hint)
    {s : Session} (hs : s.Sound) (hlabels : (∃ n, r = .nullable n) → s.BranchesDefined)
    (hroom : s.HasRoom plan.steps.length) :
    Step.Forked plan.steps = true ∧ ∃ s', Session.performAll .standard plan.steps s = .ok () s' ∧
      ((∃ n, r = .nullable n) → s'.BranchesDefined) := by
  obtain ⟨hforked, hbranches, htargets⟩ := hp.branches_loadAlias (T := T) (k := k) hint
  have hlast : ∀ t ∈ u.last.map Step.emit, t = .emit (.call .valueFromAlias) := by
    cases u <;> simp [last]
  have hforked : Step.Forked plan.steps = true := by
    rw [hsteps]
    exact Step.forked_append hforked (Step.forked_of_branches fun t ht => by rw [hlast t ht]; rfl)
  have hbranches : (∀ t ∈ plan.steps, t.branches = false) ∨ ∃ n, r = .nullable n := by
    refine hbranches.imp_left fun h => ?_
    rw [hsteps]
    exact List.forall_mem_append.2 ⟨h, fun t ht => by rw [hlast t ht]; rfl⟩
  have htargets : ∀ i, .emit i ∈ plan.steps → i.target? = none := by
    intro i hi
    rw [hsteps, steps, List.mem_append] at hi
    rcases hi with hi | hi
    · exact htargets i hi
    · cases hlast _ hi
      rfl
  -- the place is read, and the rest is typed
  obtain ⟨first, left, hopen, rest, hsplit, -, hrest⟩ := Request.supplies_plan? hplan
  have hopen : (Expr.Kind.load p).Opens T first left := by
    cases u <;> cases hopen with
    | operand h => cases h
    | kind h hopen =>
      cases h
      exact hopen
  rw [hsplit, List.length_append] at hroom
  obtain ⟨haside, top, s₀, htop, hfirst, hdepth⟩ :=
    hp.performAll_opening hopen (hroom.mono (Nat.le_add_right _ _))
  have hs₀ : s₀.Sound := ((invariant_sound .standard).performAll _).of_eq_ok hs hfirst
  have hroom₀ : s₀.HasRoom rest.steps.length :=
    (hroom.mono (Nat.add_le_add_right List.countP_le_length _)).performAll hfirst
  obtain ⟨hdepths, hcount⟩ := labels_performAll haside hfirst
  have hlabels₀ : (∀ t ∈ rest.steps, t.branches = false) ∨ s₀.BranchesDefined := by
    refine hbranches.imp (fun h t ht => h t ?_) fun h => (hlabels h).congr hdepths hcount.ge
    rw [hsplit]
    exact List.mem_append_right _ ht
  obtain ⟨s', hrest⟩ := performAll_of_yields (hrest top htop) hdepth hlabels₀ hs₀ hroom₀
  have hperform : Session.performAll .standard plan.steps s = .ok () s' := by
    rw [hsplit, performAll_append]
    exact bind_eq_ok.2 ⟨(), s₀, hfirst, hrest⟩
  exact ⟨hforked, s', hperform, fun h => (hlabels h).performAll hperform htargets (.inl hforked)⟩

end Uses

theorem Step.symbols_append {ts : List Step} (h : ∀ t ∈ ts, t.branches = false) (n : Nat)
    (us : List Step) : symbols n (ts ++ us) = symbols n ts ++ symbols n us := by
  induction ts with
  | nil => rfl
  | cons t ts ih =>
    obtain ⟨ht, hts⟩ := List.forall_mem_cons.1 h
    have hdefines : t.defines = 0 := by
      cases t <;> first | rfl | cases ht
    simp only [List.cons_append, symbols, hdefines, Nat.add_zero, ih hts, List.append_assoc]

theorem Step.symbols_append_emit (n : Nat) (ts : List Step) (is : List Instr) :
    symbols n (ts ++ is.map .emit) = symbols n ts ++ is.map .instr := by
  have hemits : ∀ n, symbols n (is.map .emit) = is.map .instr := fun n => by
    induction is with
    | nil => rfl
    | cons i is ih => exact congrArg _ ih
  induction ts generalizing n with
  | nil => exact hemits n
  | cons t ts ih => simp only [List.cons_append, symbols, ih, List.append_assoc]

/-- A session with room answers a plan that it carries out by code that stands for the symbols. -/
theorem answers_of_performAll {S : Scope} {o : Options} {q : Request} {plan : Script Reply}
    (hplan : q.plan? S o = some plan) (hforked : Step.Forked plan.steps = true) {s s' : Session}
    (hs : Reachable S o s) (hroom : s.HasRoom plan.steps.length)
    (h : performAll S.catalog plan.steps s = .ok () s') :
    Answers S o q s plan.result (Step.symbols 0 plan.steps) := by
  refine answers_plan hplan hforked hs (hroom.mono List.countP_le_length) fun f s'' hrefused => ?_
  rw [Request.answer_eq_run hplan, run_eq_settled h] at hrefused
  cases hresult : plan.result <;> rw [hresult] at hrefused <;> cases hrefused

theorem ReferenceUse.answers_again {T : ClassTable} {k : Option ClassId} {o : Options} {p : Place}
    {r : Rep} (hp : p.OnlyLoads r) (hint : Hint) (u : ReferenceUse) (proven : Option Constant)
    {s : Session} (hs : Reachable (standard T k) o s)
    (hlabels : (∃ n, r = .nullable n) → s.BranchesDefined)
    (hroom : s.HasRoom (2 * (((standard T k).loadAlias p hint).steps.length + 1))) :
    ∀ q, q = u.request ⟨.load p, hint, proven, .readRef⟩ →
      Answers (standard T k) o q s (.ok (.rep u.rep))
        (Step.symbols 0 (u.steps (standard T k) p hint)) ∧
      Answers (standard T k) o q (endOf (q.answer (standard T k) o) s) (.ok (.rep u.rep))
        (Step.symbols 0 (u.steps (standard T k) p hint)) := by
  rintro q rfl
  obtain ⟨plan, hplan, hsteps, hresult⟩ :=
    ReferenceUse.plan?_eq (T := T) (k := k) (o := o) hint hp u proven
  have hlength : plan.steps.length ≤ ((standard T k).loadAlias p hint).steps.length + 1 := by
    rw [hsteps, steps, List.length_append, List.length_map]
    cases u <;> simp [last]
  have hroom : s.HasRoom (plan.steps.length + plan.steps.length) := hroom.mono (by omega)
  obtain ⟨hforked, s₁, h₁, hlabels₁⟩ :=
    u.performAll hp hplan hsteps hs.sound hlabels (hroom.mono (Nat.le_add_right _ _))
  -- the session afterwards has room for the same plan once more
  have hend : endOf ((u.request ⟨.load p, hint, proven, .readRef⟩).answer (standard T k) o) s =
      s₁ := by
    have hrun : run (standard T k).catalog plan s = settled plan.result s₁ := run_eq_settled h₁
    rw [Request.answer_eq_run hplan, endOf, hrun, hresult]
    rfl
  have hs₁ : Reachable (standard T k) o s₁ := hend ▸ .request _ hs
  have hroom₁ : s₁.HasRoom plan.steps.length :=
    (hroom.mono (Nat.add_le_add_right List.countP_le_length _)).performAll h₁
  obtain ⟨-, s₂, h₂, -⟩ := u.performAll hp hplan hsteps hs₁.sound hlabels₁ hroom₁
  rw [hend, ← hresult, ← hsteps]
  exact ⟨answers_of_performAll hplan hforked hs (hroom.mono (Nat.le_add_right _ _)) h₁,
    answers_of_performAll hplan hforked hs₁ hroom₁ h₂⟩

theorem ReferenceUse.not_dereferenced {T : ClassTable} {k : Option ClassId} {p : Place} {r : Rep}
    {hint : Hint} (hp : p.OnlyLoads r) (u : ReferenceUse) {i : Instr}
    (hi : .instr i ∈ Step.symbols 0 (u.steps (standard T k) p hint)) :
    i.op? ≠ some .aliasGetValue := by
  have hkeeps : ((standard T k).loadAlias p hint).all (!·.dereferences) = true :=
    hp.keeps_loadAlias
  rcases List.mem_append.1 (Step.mem_of_instr_mem_symbols hi) with hmem | hmem
  · have hstep := Script.all_iff.1 hkeeps _ hmem
    simpa [Step.dereferences] using hstep
  · obtain ⟨j, hj, heq⟩ := List.mem_map.1 hmem
    cases heq
    obtain rfl : i = .call .valueFromAlias := by
      cases u with
      | evaluate | «alias» => cases hj
      | value => exact List.mem_singleton.1 hj
    simp [Instr.op?]

/-- **A read by reference keeps the reference.**  Whatever is known of the value, under all options,
and in every session with room, an expression that is read by reference gives an alias, or a union
that holds the alias, and is read by reference afterwards.  Asked for again, it is read by code that
stands for the same symbols.  No call follows an alias.  A union in storage that has an address is
made to hold an alias there; any other value is loaded, and an alias is made of what was loaded. -/
theorem reference_kept {T : ClassTable} {k : Option ClassId} {p : Place} {r : Rep}
    (hp : p.OnlyLoads r) (hint : Hint) (u : ReferenceUse) :
    ∃ symbols : List Symbol,
      (∀ e : Expr, e.kind = .load p → e.hint = hint → e.access = .readRef →
        (u.request e).exprAfter? = some e ∧
        ∀ o s, Reachable (standard T k) o s → ((∃ n, r = .nullable n) → s.BranchesDefined) →
          s.HasRoom (2 * (((standard T k).loadAlias p hint).steps.length + 1)) →
          Answers (standard T k) o (u.request e) s (.ok (.rep u.rep)) symbols ∧
          Answers (standard T k) o (u.request e)
            (endOf ((u.request e).answer (standard T k) o) s) (.ok (.rep u.rep)) symbols) ∧
      (∀ i, .instr i ∈ symbols → i.op? ≠ some .aliasGetValue) ∧
      (p.rep? = some .value → p.hasAddress = true → symbols =
        Step.symbols 0 p.loadAddress.steps ++
          .instr (.call .valueEnsureAlias) :: u.last.map .instr) ∧
      (¬(p.rep? = some .value ∧ p.hasAddress = true) → symbols =
        Step.symbols 0 (p.load.steps ++ ((standard T k).reshape r hint .alias).steps) ++
          u.last.map .instr) := by
  have loads : ∀ {q : Script Rep} {r : Rep}, q.OnlyLoads r → ∀ t ∈ q.steps, t.branches = false :=
    fun hq t ht => Step.branches_of_isLoad (Script.all_iff.1 hq.loads t ht)
  refine ⟨Step.symbols 0 (u.steps (standard T k) p hint), ?_, fun i => u.not_dereferenced hp,
    fun hvalue haddress => ?_, fun h => ?_⟩
  · rintro ⟨kind, hint, proven, access⟩ rfl rfl rfl
    refine ⟨by cases u <;> rfl, fun o s hs hlabels hroom => ?_⟩
    exact u.answers_again hp hint proven hs hlabels hroom _ rfl
  · obtain ⟨q, hq⟩ := hp.address haddress
    rw [ReferenceUse.steps, hp.steps_loadAlias, if_pos ⟨hvalue, haddress⟩, List.append_assoc,
      Step.symbols_append (loads hq)]
    cases u <;> rfl
  · rw [ReferenceUse.steps, hp.steps_loadAlias, if_neg h, Step.symbols_append_emit]

/-- A union in a local variable is made to hold an alias in the variable, and a union that holds the
alias is made. -/
theorem reference_kept_union : ∃ (e : Expr) (s : Session),
    e = ⟨.load (.local 0 .value), .long, none, .readRef⟩ ∧
    Place.OnlyLoads (.local 0 .value) .value ∧
    Reachable (standard .new none) .standard s ∧
    Answers (standard .new none) .standard (.convertExpr e .value) s (.ok (.rep .value))
      [.instr (.ldLocA 0), .instr (.call .valueEnsureAlias), .instr (.call .valueFromAlias)] ∧
    Answers (standard .new none) .standard (.convertExpr e .value)
      (endOf ((Request.convertExpr e .value).answer (standard .new none) .standard) s)
      (.ok (.rep .value))
      [.instr (.ldLocA 0), .instr (.call .valueEnsureAlias), .instr (.call .valueFromAlias)] := by
  let S := standard .new none
  let e : Expr := ⟨.load (.local 0 .value), .long, none, .readRef⟩
  let s := endOf ((Request.declare .value 1).answer S .standard) (.new none none)
  have hp : Place.OnlyLoads (.local 0 .value) .value :=
    { ne_void := by decide
      load := ⟨rfl, rfl, by decide⟩
      address := fun _ => ⟨_, rfl, rfl, by decide⟩ }
  have hs : Reachable S .standard s := .request _ (.new none none)
  have hlabels : s.BranchesDefined := fun l hl => absurd rfl hl
  have hroom : s.HasRoom (2 * ((S.loadAlias (.local 0 .value) .long).steps.length + 1)) :=
    hasRoom_of_unlimited rfl rfl (by decide +kernel)
  obtain ⟨symbols, hcode, -, hunion, -⟩ :=
    reference_kept (T := .new) (k := none) hp .long .value
  rw [hunion rfl rfl] at hcode
  obtain ⟨hfirst, hagain⟩ := (hcode e rfl rfl rfl).2 .standard s hs (fun _ => hlabels) hroom
  exact ⟨e, s, rfl, hp, hs, hfirst, hagain⟩

end Recast
