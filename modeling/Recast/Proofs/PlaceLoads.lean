import Recast.Proofs.Totality

/-!
# Reading variables

An expression that reads a variable is converted in one of two ways: the value is loaded and
converted on the stack, or an operation is called on the address of the variable, where the
conversion on the stack would have moved the value to a scratch local first.

* `Scope.substitution?` : the two conversions for which an address has an operation of its own;
* `Scope.loads_reshapeExpr` : the two ways, as plans;
* `ReadsVariable` : the two ways, as code, up to the numbering of temporaries;
* `variable_load_refines_conversion` : **reading a variable refines the conversion of its
  value**, but for the two operations.
-/

namespace Recast

/-- A variable is a place that is read by one instruction, and its address by another. -/
inductive Place.Variable (r : Rep) : Place → Instr → Instr → Prop
  /-- A local variable. -/
  | «local» (slot : Nat) : Variable r (.local slot r) (.ldLoc slot) (.ldLocA slot)
  /-- A parameter. -/
  | param (index : Nat) : Variable r (.param index r) (.ldArg index) (.ldArgA index)

namespace Scope

variable {T : ClassTable} {k : Option ClassId} {o : Options} {p : Place} {load addr : Instr}
  {source target : Rep} {hint : Hint} {access : Access}

/-- The operation on a value and the one on its address, where a conversion has another one for
the address. -/
def addressVariant? (source target : Rep) : Option (Op × Op) :=
  if source = .int64 ∧ target = .text then some (.longToText, .longAddrToText)
  else if source = .value ∧ target = .root then some (.valueAsObject, .valueToClass)
  else none

/-- The operations of which one takes the place of the other when a variable is read.  A union
that is narrowed is not read by them. -/
def substitution? (o : Options) (source : Rep) (hint : Hint) (target : Rep) : Option (Op × Op) :=
  if o.placeFastPaths = true ∧ accessor? source hint = none then addressVariant? source target
  else none

/-- How the plan to read a variable of representation `source` stands to the plan to convert its
value. -/
inductive Loads (S : Scope) (source : Rep) (load addr : Instr) : Script Rep → Script Rep → Prop
  /-- The value is loaded and converted. -/
  | loaded (plan : Script Rep) : Loads S source load addr plan (.emit load >>= fun _ => plan)
  /-- An operation takes the address of the variable and not that of a copy. -/
  | addressed {rest : Script Rep} {Q : Rep → List Operand → Prop}
      (hrest : S.Yields rest [.address source] Q) :
      Loads S source load addr (.spill source >>= fun _ => rest) (.emit addr >>= fun _ => rest)

theorem reshapeExpr_variable {S : Scope} (hp : p.Variable source load addr)
    (ht : target ≠ .void) (ha : access ≠ .readRef) :
    S.reshapeExpr o ((⟨.load p, hint, none, access⟩ : Expr).consumedAs target) target =
      ((if source = target then none
        else (accessor? source hint).map fun op => Script.emit addr >>= fun _ =>
          S.call op >>= fun narrowed => S.reshape narrowed narrowed.hint target) <|>
        if o.placeFastPaths then
          (addressOp? source target).map fun op => Script.emit addr >>= fun _ => S.call op
        else none).getD
      (Script.emit load >>= fun _ => S.reshape source hint target) := by
  have hread : (⟨.load p, hint, none, access⟩ : Expr).consumedAs target =
      ⟨.load p, hint, none, .read⟩ := by
    simp only [Expr.consumedAs, ht, ha, ↓reduceIte]
  have hfolded : S.folded? o ⟨.load p, hint, none, .read⟩ target = none := by
    unfold folded?
    split <;> rfl
  have hplace : p = .direct source load addr := by cases hp <;> rfl
  have hnarrow : S.narrowPlace? p hint = (accessor? source hint).map fun op =>
      Script.emit addr >>= fun _ => S.call op := by
    subst hplace
    cases h : accessor? source hint <;> simp only [narrowPlace?, Place.direct, h] <;> rfl
  have hfast : S.readThroughAddress? p target = (addressOp? source target).map fun op =>
      Script.emit addr >>= fun _ => S.call op := by
    subst hplace
    cases h : addressOp? source target <;> simp only [readThroughAddress?, Place.direct, h] <;> rfl
  have hgeneral : S.evaluateAndReshape ⟨.load p, hint, none, .read⟩ target =
      Script.emit load >>= fun _ => S.reshape source hint target := by
    subst hplace
    apply Script.ext
    · simp only [evaluateAndReshape, evaluate, Place.direct, Place.read, reduceCtorEq, and_false,
        ↓reduceIte, Script.steps_bind, Script.result_bind, Script.steps_emit,
        Script.result_emit, Script.result_pure, Except.bind]
      rfl
    · simp only [evaluateAndReshape, evaluate, Place.direct, Place.read, reduceCtorEq, and_false,
        ↓reduceIte, Script.result_bind, Script.result_emit, Script.result_pure, Except.bind]
  have hrep : p.rep? = some target ↔ source = target := by
    subst hplace
    exact Option.some_inj
  rw [hread, reshapeExpr, if_neg ht, if_neg (by simp), hfolded, hgeneral]
  simp only [typedRead?, hnarrow, hfast, hrep, Option.map_map, Function.comp_def, bind_assoc]
  rfl

/-- The typed operations on addresses: those that the conversion on the stack calls on the address
of a copy, and the two that stand for another one. -/
theorem addressOp?_eq_some {op : Op} (h : addressOp? source target = some op) :
    (source = .number ∧ (target = .int64 ∧ op = .numberToLong ∨
        target = .float64 ∧ op = .numberToDouble ∨ target = .text ∧ op = .numberToText)) ∨
      (source = .value ∧ target = .text ∧ op = .valueToText) ∨
      ∃ op', addressVariant? source target = some (op', op) := by
  unfold addressOp? at h
  split at h
  case h_6 =>
    split_ifs at h with hroot
    cases h
    subst hroot
    exact .inr (.inr ⟨.valueAsObject, by decide⟩)
  case h_7 => cases h
  all_goals
    cases h
    first
      | exact .inl ⟨rfl, by decide⟩
      | exact .inr (.inl ⟨rfl, rfl, rfl⟩)
      | exact .inr (.inr ⟨_, rfl⟩)

theorem addressOp?_self (r : Rep) : addressOp? r r = none := by
  cases r <;> rfl

/-- Where one operation takes the place of another, it is all that there is to the plan. -/
theorem steps_of_substitution? {op op' : Op} (hp : p.Variable source load addr)
    (ha : access ≠ .readRef) (h : substitution? o source hint target = some (op, op')) :
    op'.standard.demand? = some (.address source) ∧
      ((standard T k).call op').steps = [.emit (.call op')] ∧
      ((standard T k).reshape source hint target).steps = [.emit (.call op)] ∧
      ((standard T k).reshapeExpr o ((⟨.load p, hint, none, access⟩ : Expr).consumedAs target)
        target).steps = [.emit addr, .emit (.call op')] ∧
      ((standard T k).reshapeExpr o ((⟨.load p, hint, none, access⟩ : Expr).consumedAs target)
        target).result = ((standard T k).reshape source hint target).result := by
  unfold substitution? addressVariant? at h
  split_ifs at h with ho hlong hroot
  · obtain ⟨rfl, rfl⟩ := hlong
    cases h
    rw [reshape_of_intoTarget standard_resolvesAliases (by decide) (by decide) rfl ho.2,
      reshapeExpr_variable hp (by decide) ha, ho.1, ho.2]
    exact ⟨rfl, rfl, rfl, rfl, rfl⟩
  · obtain ⟨rfl, rfl⟩ := hroot
    cases h
    rw [reshape_of_intoTarget standard_resolvesAliases (by decide) (by decide) rfl ho.2,
      reshapeExpr_variable hp (by decide) ha, ho.1, ho.2]
    exact ⟨rfl, rfl, rfl, rfl, rfl⟩

/-- The two ways to read a variable: its value is loaded and converted, or its address is taken
where the conversion takes that of a copy. -/
theorem loads_reshapeExpr (hp : p.Variable source load addr) (ht : target ≠ .void)
    (ha : access ≠ .readRef) (h : substitution? o source hint target = none) :
    (standard T k).Loads source load addr ((standard T k).reshape source hint target)
      ((standard T k).reshapeExpr o ((⟨.load p, hint, none, access⟩ : Expr).consumedAs target)
        target) := by
  rw [reshapeExpr_variable hp ht ha]
  by_cases hself : source = target
  · subst hself
    rw [if_pos rfl, addressOp?_self, Option.map_none, ite_self]
    exact .loaded _
  rw [if_neg hself]
  cases hop : accessor? source hint with
  | some op =>
    -- the union is narrowed through its address before anything else
    have hcall : (standard T k).Leaves ((standard T k).call op) [.address source]
        op.standard.returns := leaves_call rfl (demand?_of_accessor? hop) .address
    have hplan : (standard T k).reshape source hint target =
        Script.spill source >>= fun _ => (standard T k).call op >>= fun narrowed =>
          (standard T k).reshape narrowed narrowed.hint target := by
      rw [reshape_of_accessor? standard_resolvesAliases hop hself ht, callByAddress, bind_assoc]
    rw [hplan]
    refine .addressed (Q := fun r => Holds T r)
      ((hcall.mono fun r top' hr h => And.intro hr h).bind ?_)
    rintro r top' ⟨hr, hheld⟩
    cases hr
    exact yields_reshape _ _ _ top' hheld
  | none =>
    cases hfast : o.placeFastPaths with
    | false => exact .loaded _
    | true =>
      have hvariant : addressVariant? source target = none := by
        rw [← h, substitution?, if_pos ⟨hfast, hop⟩]
      cases haddr : addressOp? source target with
      | none => exact .loaded _
      | some op =>
        -- the conversion on the stack calls the same operation on the address of a copy
        have hcopy : (standard T k).reshape source hint target =
              (standard T k).callByAddress source op ∧
            op.standard.demand? = some (.address source) := by
          rcases addressOp?_eq_some haddr with ⟨rfl, ht'⟩ | ⟨rfl, rfl, rfl⟩ | ⟨op', h'⟩
          · rw [reshape_of_intoTarget standard_resolvesAliases hself ht rfl hop]
            rcases ht' with ⟨rfl, rfl⟩ | ⟨rfl, rfl⟩ | ⟨rfl, rfl⟩ <;> exact ⟨rfl, rfl⟩
          · rw [reshape_of_intoTarget standard_resolvesAliases hself ht rfl hop]
            exact ⟨rfl, rfl⟩
          · rw [hvariant] at h'
            cases h'
        rw [hcopy.1]
        exact .addressed (leaves_call rfl hcopy.2 .address)

theorem Loads.result_eq {S : Scope} {plan plan' : Script Rep}
    (h : S.Loads source load addr plan plan') : plan'.result = plan.result := by
  cases h <;> rfl

theorem result_convertExpr_variable (hp : p.Variable source load addr) (ht : target ≠ .void)
    (ha : access ≠ .readRef) :
    ((standard T k).convertExpr o ⟨.load p, hint, none, access⟩ target).result =
      ((standard T k).convert source hint target).result := by
  have hsource : (⟨.load p, hint, none, access⟩ : Expr).staticRep = source := by
    cases hp <;> rfl
  rw [convertExpr, convert, Script.result_mapError, Script.result_mapError, hsource]
  congr 1
  cases h : substitution? o source hint target with
  | some ops => exact (steps_of_substitution? hp ha h).2.2.2.2
  | none => exact (loads_reshapeExpr hp ht ha h).result_eq

end Scope

/-! ### Code -/

/-- The slot that an instruction names. -/
def Instr.slot? : Instr → Option Nat
  | .ldLoc slot | .ldLocA slot | .stLoc slot => some slot
  | _ => none

/-- The instruction with another slot. -/
def Instr.mapSlot (φ : Nat → Nat) : Instr → Instr
  | .ldLoc slot => .ldLoc (φ slot)
  | .ldLocA slot => .ldLocA (φ slot)
  | .stLoc slot => .stLoc (φ slot)
  | i => i

/-- Code that is the same but for the slots of its temporaries: other slots stand for them,
distinct ones for distinct ones, that are declared with the same representations. -/
def SameUpToSlots (locals locals' : Array Rep) (code code' : List Instr) : Prop :=
  ∃ φ : Nat → Nat, code' = code.map (Instr.mapSlot φ) ∧
    (∀ i ∈ code.filterMap Instr.slot?, ∃ r, locals[i]? = some r ∧ locals'[φ i]? = some r) ∧
    ∀ i ∈ code.filterMap Instr.slot?, ∀ j ∈ code.filterMap Instr.slot?, φ i = φ j → i = j

section Slots

variable {ts : List Step} {N : Numbering} {slot' : Rep → Nat} {locals locals' : Array Rep}

theorem scratch?_of_mem_slots (hsymbolic : ∀ t ∈ ts, t.isSymbolic = true) {slot : Nat}
    (h : slot ∈ (N.code ts).filterMap Instr.slot?) :
    ∃ t ∈ ts, ∃ r, t.scratch? = some r ∧ N.slot r = slot := by
  induction ts generalizing N with
  | nil => cases h
  | cons t ts ih =>
    rw [Numbering.code_cons, List.filterMap_append, List.mem_append] at h
    rcases h with h | h
    · have ht := hsymbolic t List.mem_cons_self
      refine ⟨t, List.mem_cons_self, ?_⟩
      cases t with
      | emit i => cases i <;> first | (cases h; done) | cases ht
      | store r | address r => exact ⟨r, rfl, (List.mem_singleton.1 h).symm⟩
      | _ => cases h
    · obtain ⟨t', ht', r, hr, hslot⟩ :=
        ih (fun t' ht' => hsymbolic t' (List.mem_cons_of_mem _ ht')) h
      exact ⟨t', List.mem_cons_of_mem _ ht', r, hr, by rwa [Numbering.slot_after] at hslot⟩

theorem code_mapSlot {φ : Nat → Nat} (hsymbolic : ∀ t ∈ ts, t.isSymbolic = true)
    (hφ : ∀ t ∈ ts, ∀ r, t.scratch? = some r → φ (N.slot r) = slot' r) :
    { N with slot := slot' }.code ts = (N.code ts).map (Instr.mapSlot φ) := by
  induction ts generalizing N with
  | nil => rfl
  | cons t ts ih =>
    have ht := hsymbolic t List.mem_cons_self
    have hfirst : ({ N with slot := slot' }.instr? t).toList =
        (N.instr? t).toList.map (Instr.mapSlot φ) := by
      cases t with
      | emit i => cases i <;> first | rfl | cases ht
      | store r =>
        exact congrArg (fun slot => [Instr.stLoc slot]) (hφ _ List.mem_cons_self r rfl).symm
      | address r =>
        exact congrArg (fun slot => [Instr.ldLocA slot]) (hφ _ List.mem_cons_self r rfl).symm
      | _ => rfl
    have hafter : { N with slot := slot' }.after t = { N.after t with slot := slot' } := by
      cases t <;> rfl
    rw [Numbering.code_cons, Numbering.code_cons, List.map_append, hfirst, hafter]
    refine congrArg _ (ih (fun t' ht' => hsymbolic t' (List.mem_cons_of_mem _ ht')) ?_)
    intro t' ht' r hr
    rw [Numbering.slot_after]
    exact hφ t' (List.mem_cons_of_mem _ ht') r hr

theorem sameUpToSlots_code (hsymbolic : ∀ t ∈ ts, t.isSymbolic = true)
    (hslots : ∀ t ∈ ts, ∀ r, t.scratch? = some r →
      locals[N.slot r]? = some r ∧ locals'[slot' r]? = some r) :
    SameUpToSlots locals locals' (N.code ts) ({ N with slot := slot' }.code ts) := by
  -- what a slot is declared with tells what it stands for
  let φ : Nat → Nat := fun i => (locals[i]?.map slot').getD i
  have hφ : ∀ t ∈ ts, ∀ r, t.scratch? = some r → φ (N.slot r) = slot' r := by
    intro t ht r hr
    simp only [φ, (hslots t ht r hr).1, Option.map_some, Option.getD_some]
  refine ⟨φ, code_mapSlot hsymbolic hφ, fun i hi => ?_, fun i hi j hj heq => ?_⟩
  · obtain ⟨t, ht, r, hr, rfl⟩ := scratch?_of_mem_slots hsymbolic hi
    rw [hφ t ht r hr]
    exact ⟨r, hslots t ht r hr⟩
  · obtain ⟨t, ht, r, hr, rfl⟩ := scratch?_of_mem_slots hsymbolic hi
    obtain ⟨u, hu, q, hq, rfl⟩ := scratch?_of_mem_slots hsymbolic hj
    rw [hφ t ht r hr, hφ u hu q hq] at heq
    have hrq := (hslots t ht r hr).2
    rw [heq, (hslots u hu q hq).2] at hrq
    cases hrq
    rfl

end Slots

/-- How the code to read a variable of representation `source` stands to the code that converts
its value.  Each code refers to locals of its own. -/
inductive ReadsVariable (locals locals' : Array Rep) (source : Rep) (load addr : Instr) :
    List Instr → List Instr → Prop
  /-- The value is loaded and converted. -/
  | loaded (code : List Instr) : ReadsVariable locals locals' source load addr code (load :: code)
  /-- The address of the variable stands for that of a temporary that holds the value. -/
  | addressed {slot : Nat} {rest rest' : List Instr} (hslot : locals[slot]? = some source)
      (hrest : SameUpToSlots locals locals' rest rest') :
      ReadsVariable locals locals' source load addr (.stLoc slot :: .ldLocA slot :: rest)
        (addr :: rest')

namespace Session

variable {C : Catalog} {s s' : Session} {p : Place} {load addr i : Instr} {r source : Rep}
  {n : Nat}

/-- The session after an instruction that pushes one operand. -/
def pushed (s : Session) (i : Instr) : Session :=
  { s with builder :=
      { s.builder with
        instrs := s.builder.instrs.push i
        depth := s.builder.depth + 1
        maxDepth := max s.builder.maxDepth (s.builder.depth + 1) } }

/-- The session in which a plan has been carried out to its end. -/
def settled {α : Type} (out : Except ConvertError α) (s : Session) :
    EStateM.Result Halt Session α :=
  match out with
  | .ok a => .ok a s
  | .error e => .error (.failed e) s

theorem run_eq_settled {α : Type} {plan : Script α}
    (h : performAll C plan.steps s = .ok () s') : run C plan s = settled plan.result s' := by
  cases hresult : plan.result with
  | ok a => exact run_eq_ok.2 ⟨hresult, h⟩
  | error e => exact run_eq_error.2 (.inr ⟨e, hresult, rfl, h⟩)

theorem emit_load (hp : p.Variable r load addr) (s : Session) :
    emit C load s = .ok () (s.pushed load) := by
  cases hp <;> rfl

theorem emit_addr (hp : p.Variable r load addr) (s : Session) :
    emit C addr s = .ok () (s.pushed addr) := by
  cases hp <;> rfl

theorem ready_pushed (hlabels : (∃ q, source = .nullable q) → s.BranchesDefined)
    (hroom : s.HasRoom n) : (s.pushed i).Ready source n :=
  ⟨fun _ => Nat.succ_pos _, hlabels, hroom.congr rfl rfl rfl⟩

theorem performAll_addr {S : Scope} {α : Type} {rest : Script α}
    {Q : α → List Operand → Prop} (hrest : S.Yields rest [.address source] Q)
    (hp : p.Variable source load addr) (hs : s.Sound)
    (hlabels : (∀ t ∈ rest.steps, t.branches = false) ∨ s.BranchesDefined)
    (hroom : s.HasRoom rest.steps.length) :
    ∃ s', performAll S.catalog (.emit addr :: rest.steps) s = .ok () s' := by
  -- to push the address touches neither the labels nor the room
  have hlabels' : (∀ t ∈ rest.steps, t.branches = false) ∨ (s.pushed addr).BranchesDefined :=
    hlabels
  have hroom' : (s.pushed addr).HasRoom rest.steps.length := hroom.congr rfl rfl rfl
  obtain ⟨s', hsteps⟩ := performAll_of_yields hrest (Nat.le_add_left _ _) hlabels' hs hroom'
  exact ⟨s', bind_eq_ok.2 ⟨(), _, emit_addr hp s, hsteps⟩⟩

theorem texts_eq_of_interned {ts ts' : List Step} {s₁ s₁' : Session} {u : Unit}
    (h : performAll C ts s₁ = .ok u s') (h' : performAll C ts' s = .ok u s₁')
    (htexts : s.builder.texts = s₁.builder.texts)
    (heq : ts'.filterMap Step.interned? = ts.filterMap Step.interned?) :
    s₁'.builder.texts = s'.builder.texts := by
  rw [texts_performAll h, texts_performAll h', htexts, heq]

theorem numbering_of_texts_eq (h : s'.builder.texts = s.builder.texts) (n : Nat) :
    s'.numbering n = { s.numbering n with slot := (s'.numbering n).slot } := by
  simp only [numbering, h]

/-- The two ways to read a variable are carried out with the same effect on the texts. -/
theorem readsVariable_of_loads {S : Scope} {plan plan' : Script Rep}
    (h : S.Loads source load addr plan plan') (hp : p.Variable source load addr) (hs : s.Sound)
    (hsymbolic : plan.all Step.isSymbolic = true)
    (hlabels : (∀ t ∈ plan.steps, t.branches = false) ∨ s.BranchesDefined)
    (hroom : s.HasRoom plan.steps.length)
    (hsteps : performAll S.catalog plan.steps (s.pushed load) = .ok () s') :
    ∃ s'', performAll S.catalog plan'.steps s = .ok () s'' ∧
      s''.builder.texts = s'.builder.texts ∧
      ∀ n, ReadsVariable s'.builder.locals s''.builder.locals source load addr
        ((s'.numbering n).code plan.steps) ((s''.numbering n).code plan'.steps) := by
  have hsound : (s.pushed load).Sound := hs
  have hs' := ((invariant_sound S.catalog).performAll _).of_eq_ok hsound hsteps
  cases h with
  | loaded =>
    exact ⟨s', bind_eq_ok.2 ⟨(), _, emit_load hp s, hsteps⟩, rfl, fun n => .loaded _⟩
  | @addressed rest Q hrest =>
    -- the rest follows the two steps that move the value
    have hmem : ∀ t ∈ rest.steps, t ∈ Step.store source :: .address source :: rest.steps :=
      fun t ht => List.mem_cons_of_mem _ (List.mem_cons_of_mem _ ht)
    obtain ⟨s'', hsteps'⟩ := performAll_addr hrest hp hs
      (hlabels.imp_left fun h t ht => h t (hmem t ht)) (hroom.mono (Nat.le_add_right _ 2))
    have hs'' := ((invariant_sound S.catalog).performAll _).of_eq_ok hs hsteps'
    have htexts := texts_eq_of_interned hsteps hsteps' rfl rfl
    refine ⟨s'', hsteps', htexts, fun n => ?_⟩
    have hvalid := numbers_of_performAll hsteps hs' n
    have hvalid' := numbers_of_performAll hsteps' hs'' n
    have hrest : SameUpToSlots s'.builder.locals s''.builder.locals
        ((s'.numbering n).code rest.steps) ((s''.numbering n).code rest.steps) := by
      rw [numbering_of_texts_eq htexts]
      exact sameUpToSlots_code (fun t ht => Script.all_iff.1 hsymbolic t (hmem t ht))
        fun t ht r hr => ⟨hvalid.slot t (hmem t ht) r hr,
          hvalid'.slot t (List.mem_cons_of_mem _ ht) r hr⟩
    exact .addressed (hvalid.slot (.store source) List.mem_cons_self source rfl) hrest

end Session

open Scope Session

/-- **Reading a variable refines the conversion of its value.**  In every session that is ready,
a read into a representation ends as the conversion of the loaded value does: with the same
representation, or with the same refusal of a number that is wanted as something that can be
called.  Its code is that of the conversion, after an instruction that loads the value, or what
follows the move to a temporary in it, after one that loads the address of the variable.  The two
conversions for which an address has an operation of its own are one call either way. -/
theorem variable_load_refines_conversion {T : ClassTable} {k : Option ClassId} {o : Options}
    {p : Place} {load addr : Instr} {source target : Rep} {hint : Hint} {access : Access}
    (hp : p.Variable source load addr) (ht : target ≠ .void) (ha : access ≠ .readRef)
    {s : Session} (hs : Reachable (standard T k) o s)
    (hlabels : (∃ q, source = .nullable q) → s.BranchesDefined)
    (hroom : s.HasRoom ((standard T k).convert source hint target).steps.length) :
    ∃ out s₀ s' s'' code code',
      (∀ e, out = .error e → ∃ r, e = .notCallable r) ∧
      emit .standard load s = .ok () s₀ ∧
      run .standard ((standard T k).convert source hint target) s₀ = settled out s' ∧
      run .standard ((standard T k).convertExpr o ⟨.load p, hint, none, access⟩ target) s =
        settled out s'' ∧
      s'.builder.instrs.toList = s₀.builder.instrs.toList ++ code ∧
      s''.builder.instrs.toList = s.builder.instrs.toList ++ code' ∧
      s''.builder.texts = s'.builder.texts ∧
      match substitution? o source hint target with
      | some (op, op') => code = [.call op] ∧ code' = [addr, .call op']
      | none => ReadsVariable s'.builder.locals s''.builder.locals source load addr code code' := by
  set plan := (standard T k).convert source hint target with hplan
  set plan' := (standard T k).convertExpr o ⟨.load p, hint, none, access⟩ target with hplan'
  have hresult : plan'.result = plan.result := result_convertExpr_variable hp ht ha
  have hcallable : ∀ e, plan.result = .error e → ∃ r, e = .notCallable r := by
    intro e he
    rw [hplan, result_convert, outcome] at he
    split at he <;> cases he
    exact ⟨_, rfl⟩
  have hsound : (s.pushed load).Sound := hs.sound
  obtain ⟨s', hsteps⟩ := performAll_convert hsound (ready_pushed hlabels hroom)
  have hsteps : performAll .standard plan.steps (s.pushed load) = .ok () s' := hsteps
  -- it is left to carry out the read and to compare the code
  suffices ∃ s'', performAll .standard plan'.steps s = .ok () s'' ∧
      s''.builder.texts = s'.builder.texts ∧
      match substitution? o source hint target with
      | some (op, op') => plan.steps = [.emit (.call op)] ∧
          plan'.steps = [.emit addr, .emit (.call op')]
      | none => ∀ n, ReadsVariable s'.builder.locals s''.builder.locals source load addr
          ((s'.numbering n).code plan.steps) ((s''.numbering n).code plan'.steps) by
    obtain ⟨s'', hsteps', htexts, hcode⟩ := this
    refine ⟨plan.result, s.pushed load, s', s'', _, _, hcallable, emit_load hp s,
      run_eq_settled hsteps, hresult ▸ run_eq_settled hsteps', performAll_code hsteps,
      performAll_code hsteps', htexts, ?_⟩
    split at hcode
    · rw [hcode.1, hcode.2]
      exact ⟨rfl, rfl⟩
    · exact hcode _
  cases hsub : substitution? o source hint target with
  | none =>
    have hloads : (standard T k).Loads source load addr _ _ := loads_reshapeExpr hp ht ha hsub
    exact readsVariable_of_loads hloads hp hs.sound (isSymbolic_reshape source hint target)
      (isStraight_reshape_or hlabels) hroom hsteps
  | some ops =>
    obtain ⟨hd, hcall, hone, htwo, -⟩ := steps_of_substitution? (T := T) (k := k) hp ha hsub
    have hone : plan.steps = [.emit (.call ops.1)] := hone
    have htwo : plan'.steps = [.emit addr, .emit (.call ops.2)] := htwo
    have hsteps' : plan'.steps = .emit addr :: ((standard T k).call ops.2).steps := by
      rw [hcall, htwo]
    have hroom' : s.HasRoom ((standard T k).call ops.2).steps.length := by
      rw [hcall]
      rwa [hone] at hroom
    obtain ⟨s'', hread⟩ := performAll_addr (leaves_call rfl hd .address) hp hs.sound
      (.inl fun t ht => Step.branches_of_isPlain (Script.all_iff.1 (isPlain_call _) t ht)) hroom'
    rw [← hsteps'] at hread
    refine ⟨s'', hread, texts_eq_of_interned hsteps hread rfl ?_, hone, htwo⟩
    rw [hone, htwo]
    rfl

/-- An integer in a local is read as text through its address. -/
theorem variable_load_refines_conversion_text : ∃ s : Session,
    Place.Variable .int64 (.local 0 .int64) (.ldLoc 0) (.ldLocA 0) ∧ Rep.text ≠ .void ∧
    Access.read ≠ .readRef ∧ Reachable (standard .new none) .standard s ∧
    ((∃ q, Rep.int64 = .nullable q) → s.BranchesDefined) ∧
    s.HasRoom ((standard .new none).convert .int64 .long .text).steps.length ∧
    ∃ out s₀ s' s'',
      emit .standard (.ldLoc 0) s = .ok () s₀ ∧
      run .standard ((standard .new none).convert .int64 .long .text) s₀ = settled out s' ∧
      run .standard ((standard .new none).convertExpr .standard
        ⟨.load (.local 0 .int64), .long, none, .read⟩ .text) s = settled out s'' ∧
      s'.builder.instrs.toList = s₀.builder.instrs.toList ++ [.call .longToText] ∧
      s''.builder.instrs.toList =
        s.builder.instrs.toList ++ [.ldLocA 0, .call .longAddrToText] := by
  let S := standard .new none
  let s := endOf ((Request.declare .int64 1).answer S .standard) (.new none none)
  have hs : Reachable S .standard s := .request _ (.new none none)
  have hlabels : (∃ q, Rep.int64 = .nullable q) → s.BranchesDefined := fun h => by
    obtain ⟨q, hq⟩ := h
    cases hq
  have hroom : s.HasRoom (S.convert .int64 .long .text).steps.length := by
    refine ⟨?_, ?_, by decide +kernel⟩
    · rintro q ⟨⟩
    · rintro q ⟨⟩
  have ha : Access.read ≠ .readRef := by decide
  have hread := variable_load_refines_conversion (.local 0) (by decide) ha hs hlabels hroom
  obtain ⟨out, s₀, s', s'', _, _, -, hload, hconvert, hexpr, hcode, hcode', -, rfl, rfl⟩ := hread
  exact ⟨s, .local 0, by decide, ha, hs, hlabels, hroom, out, s₀, s', s'', hload, hconvert, hexpr,
    hcode, hcode'⟩

end Recast
