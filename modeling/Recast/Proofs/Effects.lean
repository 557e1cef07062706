import Recast.Proofs.OptionCosts
import Recast.Proofs.ScratchUse
import Recast.Proofs.StackDepth

/-!
# Effects are evaluated once

There are many ways to evaluate an expression into a wanted representation: its value is folded or
left out, its place is narrowed, read through its address or by reference, or it is evaluated and
the value converted.  Whichever way is taken, what the expression does happens once, and first of
all: its routine is called, or its place is accessed.  What is converted afterwards neither calls a
routine nor comes back to a variable of the user.

* `Place.Reads` : a place that is read by single instructions;
* `Session.Granted` : the sessions that any requests lead to, with the locals of the user;
* `Request.Evaluates.begins` : **a plan begins with what its expression does**, unless that is
  spared, and goes on with inner steps;
* `Session.depth_performAll` : the depth that a plan leaves can be told from its code;
* `effects_evaluated_once` : **effects are evaluated once**.
-/

namespace Recast

open Session

/-! ### Storage -/

/-- Where a variable is stored. -/
inductive Storage where
  /-- In a local. -/
  | slot (n : Nat)
  /-- In an argument. -/
  | argument (n : Nat)
  deriving DecidableEq

/-- The storage that an instruction has to do with. -/
def Instr.storage? : Instr → Option Storage
  | .ldLoc n | .ldLocA n | .stLoc n => some (.slot n)
  | .ldArg n | .ldArgA n => some (.argument n)
  | _ => none

/-- The instruction has to do with the storage. -/
def Instr.uses (x : Storage) (i : Instr) : Bool := i.storage? == some x

namespace Storage

/-- The instruction that pushes what is stored. -/
def load : Storage → Instr
  | slot n => .ldLoc n
  | argument n => .ldArg n

/-- The instruction that pushes the address. -/
def address : Storage → Instr
  | slot n => .ldLocA n
  | argument n => .ldArgA n

/-- It is an argument, or a local of the user. -/
def IsOf (users : List Nat) : Storage → Prop
  | slot n => n ∈ users
  | argument _ => True

@[simp]
theorem uses_load (x : Storage) : x.load.uses x = true := by
  cases x <;> exact beq_self_eq_true _

@[simp]
theorem uses_address (x : Storage) : x.address.uses x = true := by
  cases x <;> exact beq_self_eq_true _

@[simp]
theorem isInvoke_load (x : Storage) : x.load.isInvoke = false := by
  cases x <;> rfl

@[simp]
theorem isInvoke_address (x : Storage) : x.address.isInvoke = false := by
  cases x <;> rfl

end Storage

/-- A place gives what it gives by a single instruction each: the value that is stored, and the
address. -/
structure Place.Reads (p : Place) (x : Storage) : Prop where
  /-- The value is loaded. -/
  load : ∀ r, p.load.result = .ok r → p.load.steps = [.emit x.load]
  /-- The address is loaded. -/
  address : ∀ r, p.loadAddress.result = .ok r → p.loadAddress.steps = [.emit x.address]

theorem Place.reads_of_read {p : Place} {x : Storage} {loaded addressed : Option Rep}
    (hload : p.load = read x.load loaded) (haddress : p.loadAddress = read x.address addressed) :
    p.Reads x := by
  have steps : ∀ (i : Instr) (r? : Option Rep) (r : Rep), (read i r?).result = .ok r →
      (read i r?).steps = [.emit i] := by
    intro i r? r h
    cases r? with
    | some q => rfl
    | none => cases h
  constructor
  · rw [hload]
    exact steps _ _
  · rw [haddress]
    exact steps _ _

theorem Place.Reads.code_accesses {p : Place} {x : Storage} {first : Script Rep} {r : Rep}
    (h : p.Reads x) (N : Numbering) (hfirst : first ∈ p.accesses) (hr : first.result = .ok r) :
    N.code first.steps = [x.load] ∨ N.code first.steps = [x.address] := by
  rcases List.mem_pair.1 hfirst with rfl | rfl
  · rw [h.load r hr]
    exact .inl rfl
  · rw [h.address r hr]
    exact .inr rfl

/-! ### Plans that begin with an expression -/

/-- Steps that neither name anything by a number nor call a routine of the program. -/
def Step.Inner (ts : List Step) : Prop :=
  ts.all Step.isSymbolic = true ∧ ts.all (!·.isInvoke) = true

theorem Scope.congruence_inner (S : Scope) : S.Congruence S fun _ p _ => Step.Inner p.steps :=
  (congruence_symbolic S).and (congruence_quiet S)

/-- A plan that has a result begins with one of some plans, which has one too, and goes on with
inner steps. -/
def Script.Begins {α : Type} (firsts : List (Script Rep)) (p : Script α) : Prop :=
  ∀ a, p.result = .ok a → ∃ first ∈ firsts, ∃ r rest, first.result = .ok r ∧
    p.steps = first.steps ++ rest ∧ Step.Inner rest

section Begins

variable {S : Scope} {o : Options} {α β : Type} {p p' : Script α} {firsts : List (Script Rep)}
  {q : Request} {e : Expr}

theorem Script.Begins.of_inner (h : Step.Inner p.steps) : p.Begins [return .void] :=
  fun _ _ => ⟨_, List.mem_cons_self, .void, p.steps, rfl, rfl, h⟩

theorem Script.result_of_mapError {f : ConvertError → ConvertError} {a : α}
    (h : (p.mapError f).result = .ok a) : p.result = .ok a := by
  rw [result_mapError] at h
  cases hresult : p.result <;> rw [hresult] at h <;> cases h
  rfl

theorem Script.exists_result_of_map {f : α → β} {b : β} (h : (f <$> p).result = .ok b) :
    ∃ a, p.result = .ok a := by
  rw [result_map] at h
  cases hresult : p.result <;> rw [hresult] at h <;> cases h
  exact ⟨_, rfl⟩

theorem Script.Begins.mapError (h : p.Begins firsts) (f : ConvertError → ConvertError) :
    (p.mapError f).Begins firsts := fun a ha => h a (result_of_mapError ha)

theorem Script.Begins.map (h : p.Begins firsts) (f : α → β) : (f <$> p).Begins firsts := by
  intro b hb
  obtain ⟨a, ha⟩ := exists_result_of_map hb
  rw [steps_map]
  exact h a ha

theorem Scope.Opens.begins (h : Opens (fun _ p _ => Step.Inner p.steps) firsts p p') :
    p.Begins firsts := by
  obtain @⟨first, f, f', hfirst, hf⟩ := h
  intro a ha
  rw [Script.result_bind] at ha
  rw [Script.steps_bind]
  cases hresult : first.result with
  | ok r => exact ⟨first, hfirst, r, _, hresult, rfl, hf r⟩
  | error c =>
    rw [hresult] at ha
    cases ha

/-- The requests that evaluate an expression into a representation. -/
inductive Request.Evaluates (e : Expr) : Request → Prop
  /-- The representation is asked for. -/
  | convertExpr (target : Rep) : Evaluates e (.convertExpr e target)
  /-- A float is asked for. -/
  | numberToDouble : Evaluates e (.numberToDouble e)
  /-- An array is asked for. -/
  | castToArray : Evaluates e (.castToArray e)

/-- The evaluation of the expression of a request is spared: its value is folded, or left out. -/
def Request.spares (S : Scope) (o : Options) : Request → Bool
  | convertExpr e target => (S.spared? o (e.consumedAs target) target).isSome
  | numberToDouble e => (if o.foldConstants then e.known?.bind Scope.floatOf? else none).isSome
  | _ => false

theorem Request.Evaluates.spares_eq_false (hq : q.Evaluates e) {routine : String} {returns : Rep}
    (he : e.kind = .invoke routine returns) : q.spares S o = false := by
  obtain ⟨kind, hint, proven, access⟩ := e
  cases he
  cases hq with
  | convertExpr target =>
    let call : Expr := ⟨.invoke routine returns, hint, proven, access⟩
    have hspared : S.spared? o (call.consumedAs target) target = none := by
      unfold Scope.spared?
      rw [Scope.folded?_eq_none rfl]
      split_ifs with _ hpure
      · cases hpure.2
      all_goals rfl
    exact congrArg Option.isSome hspared
  | numberToDouble => exact congrArg Option.isSome (ite_self _)
  | castToArray => rfl

/-- **A plan begins with what its expression does**, unless that is spared, and goes on with inner
steps. -/
theorem Request.Evaluates.begins (hq : q.Evaluates e) : ∃ plan, q.plan? S o = some plan ∧
    plan.Begins (if q.spares S o then [return .void] else e.sources) := by
  have h := S.congruence_inner
  cases hq with
  | convertExpr target =>
    refine ⟨_, rfl, .map (.mapError ?_ _) _⟩
    have hspared := h.spared? (o := o) (e.consumedAs target) target
    rw [Scope.reshapeExpr_eq, spares]
    cases hplan : S.spared? o (e.consumedAs target) target with
    | none => exact (h.evaluateInto (e.consumedAs target) target).begins
    | some plan =>
      rw [hplan] at hspared
      cases hspared with | some hinner => exact .of_inner hinner
  | numberToDouble =>
    refine ⟨_, rfl, .map ?_ _⟩
    let general : Script Rep := S.evaluate e.readByValue >>= fun source =>
      S.convert source e.hint .float64
    have hgeneral : Scope.Opens (fun _ p _ => Step.Inner p.steps) e.sources general general :=
      (h.evaluate e.readByValue).bind h fun source => h.reshape source e.hint .float64
    cases hknown : (if o.foldConstants then e.known?.bind Scope.floatOf? else none) with
    | none =>
      have hspares : (Request.numberToDouble e).spares S o = false := congrArg Option.isSome hknown
      have hplan : S.numberToDouble o e = general := by
        simp only [Scope.numberToDouble, hknown]
        rfl
      rw [hplan, hspares]
      exact hgeneral.begins
    | some x =>
      have hspares : (Request.numberToDouble e).spares S o = true := congrArg Option.isSome hknown
      have hinner : Step.Inner (S.numberToDouble o e).steps := by
        simp only [Scope.numberToDouble, hknown]
        exact ⟨rfl, rfl⟩
      rw [hspares]
      exact .of_inner hinner
  | castToArray =>
    obtain ⟨p, _, hp, -, hopens⟩ := h.castToArray e
    refine ⟨_, rfl, .map ?_ _⟩
    rw [hp]
    exact .mapError hopens.begins _

end Begins

/-! ### The code of inner steps -/

section Code

variable {N : Numbering} {t : Step} {ts : List Step} {i : Instr} {x : Storage} {users : List Nat}

/-- A step that names nothing by a number has to do with scratch locals only. -/
theorem Numbering.eq_slot_of_uses (ht : t.isSymbolic = true) (hi : N.instr? t = some i)
    (hx : i.uses x = true) : ∃ r, t.scratch? = some r ∧ x = .slot (N.slot r) := by
  rw [Instr.uses, beq_iff_eq] at hx
  cases t with
  | emit j =>
    cases hi
    cases i <;> first | (cases ht; done) | cases hx
  | store r | address r =>
    cases hi
    cases hx
    exact ⟨r, rfl, rfl⟩
  | reserve r | fork => cases hi
  | _ =>
    cases hi
    cases hx

/-- Inner steps leave alone what is not in a scratch local of theirs. -/
theorem Numbering.filter_uses_code (hts : ts.all Step.isSymbolic = true)
    (hslots : ∀ t ∈ ts, ∀ r, t.scratch? = some r → N.slot r ∉ users) (hx : x.IsOf users) :
    (N.code ts).filter (Instr.uses x) = [] := by
  refine List.filter_eq_nil_iff.2 fun i hi huses => ?_
  obtain ⟨t, ht, M, hM, hinstr⟩ := exists_of_mem_code hi
  obtain ⟨r, hr, rfl⟩ := eq_slot_of_uses (List.all_eq_true.1 hts t ht) hinstr huses
  rw [hM] at hx
  exact hslots t ht r hr hx

end Code

namespace Session

variable {C : Catalog} {s s' : Session} {t : Step} {ts : List Step} {u : Unit} {i : Instr}

/-! ### Depth -/

theorem depth_emit (h : emit C i s = .ok u s') (hi : ∀ l, i ≠ .mark l) :
    s'.builder.depth = i.depthAfter C s.builder.depth := by
  obtain ⟨b, hb, rfl⟩ := emit_eq_ok h
  rw [(Builder.emit_eq_ok hb).2.1]
  cases i with
  | mark l => exact absurd rfl (hi l)
  | _ => rfl

/-- The depth that a step leaves is that of the instruction that it becomes, however that is
numbered. -/
theorem depth_perform (h : perform C t s = .ok u s') (N : Numbering)
    (ht : ∀ i, N.instr? t = some i → ∀ l, i ≠ .mark l) :
    s'.builder.depth = (N.instr? t).toList.foldl (Instr.depthAfter C) s.builder.depth := by
  cases t with
  | emit i => exact depth_emit h (ht i rfl)
  | text x | invoke x returnsValue =>
    obtain ⟨j, s₀, hj, hemit⟩ := bind_eq_ok.1 h
    obtain ⟨-, -, hb⟩ := internText_eq_ok (attempt_eq_ok.1 hj)
    rw [depth_emit hemit fun _ => Instr.noConfusion, hb]
    rfl
  | reserve r =>
    obtain ⟨slot, s₀, hslot, hpure⟩ := bind_eq_ok.1 h
    cases hpure
    rw [builder_acquire hslot]
    rfl
  | store r | address r =>
    obtain ⟨slot, s₀, hslot, hemit⟩ := bind_eq_ok.1 h
    rw [depth_emit hemit fun _ => Instr.noConfusion,
      builder_acquire hslot]
    rfl
  | fork =>
    cases h
    rfl
  | brAbsent | brEnd =>
    obtain ⟨_, _, hget, hemit⟩ := bind_eq_ok.1 h
    cases hget
    rw [depth_emit hemit fun _ => Instr.noConfusion]
    rfl
  | markAbsent | markEnd => exact absurd rfl (ht _ rfl _)

/-- The depth that a plan leaves can be told from its code, if no label is placed. -/
theorem depth_performAll (h : performAll C ts s = .ok u s') (N : Numbering)
    (hts : ∀ i ∈ N.code ts, ∀ l, i ≠ .mark l) :
    s'.builder.depth = (N.code ts).foldl (Instr.depthAfter C) s.builder.depth := by
  induction ts generalizing s N with
  | nil =>
    cases h
    rfl
  | cons t ts ih =>
    obtain ⟨_, s₀, hfirst, hrest⟩ := bind_eq_ok.1 h
    rw [Numbering.code_cons, List.forall_mem_append] at hts
    rw [ih hrest _ hts.2, Numbering.code_cons, List.foldl_append,
      depth_perform hfirst N fun i hi => hts.1 i (Option.mem_toList.2 hi)]

end Session

/-! ### Values that are discarded -/

/-- Code that leaves nothing behind: there is none, or it calls what returns nothing, or it pushes
one operand and drops it. -/
inductive Discards (C : Catalog) : List Instr → Prop
  /-- Nothing is done. -/
  | nothing : Discards C []
  /-- A routine is called that returns nothing. -/
  | call (routine : Nat) : Discards C [.invoke routine false]
  /-- One operand is pushed, and dropped. -/
  | value {i : Instr} (hi : ∀ depth, i.effect C depth = (0, 1)) : Discards C [i, .pop]

section Discards

variable {C : Catalog} {code : List Instr} {T : ClassTable} {k : Option ClassId} {o : Options}
  {e : Expr} {r : Rep}

theorem Discards.ne_mark (h : Discards C code) : ∀ i ∈ code, ∀ l, i ≠ .mark l := by
  cases h with
  | nothing => simp
  | call routine => simp
  | value hi =>
    rintro i hmem l rfl
    rcases List.mem_pair.1 hmem with rfl | hpop
    · cases hi 0
    · cases hpop

theorem Discards.foldl_depthAfter (h : Discards C code) (depth : Nat) :
    code.foldl (Instr.depthAfter C) depth = depth := by
  cases h with
  | nothing => rfl
  | call routine => rfl
  | value hi =>
    rw [List.foldl_cons, Instr.depthAfter, hi]
    rfl

theorem Script.steps_discard {p : Script Rep} (h : p.result = .ok r) :
    (p >>= fun source => Script.drop source >>= fun _ => return Rep.void).steps =
      p.steps ++ if r = .void then [] else [.emit .pop] := by
  rw [steps_bind, h]
  dsimp only
  rw [steps_bind, steps_drop, result_drop, steps_pure, List.append_nil]

/-- **What is evaluated for its effects only leaves nothing behind**, if a place that is loaded
holds a value. -/
theorem Scope.discards_convertExpr
    (he : ∀ p, e.kind = .load p → p.load.result ≠ .ok .void ∧ ∃ x, p.Reads x)
    (h : ((standard T k).convertExpr o e .void).result = .ok r) (N : Numbering) :
    Discards .standard (N.code ((standard T k).convertExpr o e .void).steps) := by
  obtain ⟨kind, hint, proven, access⟩ := e
  replace h := Script.result_of_mapError h
  rw [convertExpr, Script.steps_mapError]
  rw [reshapeExpr, if_pos rfl, discardExpr] at h ⊢
  split_ifs at h ⊢
  · exact .nothing
  cases kind with
  | literal c => cases c <;> exact .value fun _ => rfl
  | invoke routine returns =>
    rw [Script.steps_discard (r := returns) rfl]
    by_cases hvoid : returns = .void
    · subst hvoid
      exact .call _
    · rw [if_neg hvoid]
      have hvalue : (returns != .void) = true := bne_iff_ne.2 hvoid
      refine .value fun _ => ?_
      rw [hvalue]
      rfl
  | load p =>
    obtain ⟨hvoid, x, hx⟩ := he p rfl
    have hload : (standard T k).evaluate
        (Expr.consumedAs ⟨.load p, hint, proven, access⟩ .void) = p.load := rfl
    rw [hload] at h ⊢
    cases hresult : p.load.result with
    | error c =>
      rw [Script.result_bind, hresult] at h
      cases h
    | ok source =>
      have hne : source ≠ .void := fun heq => hvoid (heq ▸ hresult)
      rw [Script.steps_discard hresult, if_neg hne, hx.load source hresult]
      refine .value fun _ => ?_
      cases x <;> rfl

end Discards

/-! ### Sessions -/

/-- The sessions that requests lead to from a new one, whatever becomes of them and under whatever
options, with the locals that are declared for the user on the way. -/
inductive Session.Granted (S : Scope) : List Nat → Session → Prop
  /-- A new session. -/
  | new (localQuota textQuota : Option Nat) : Granted S [] (new localQuota textQuota)
  /-- A request is answered. -/
  | request {users : List Nat} {s : Session} (o : Options) (q : Request) (h : Granted S users s) :
      Granted S (users ++ q.declared s (endOf (q.answer S o) s)) (endOf (q.answer S o) s)

section Sessions

variable {S : Scope} {T : ClassTable} {k : Option ClassId} {o : Options} {q : Request} {e : Expr}
  {users : List Nat} {s s' : Session} {reply : Reply}

theorem Session.Granted.separates (h : Granted S users s) : Separates users s := by
  induction h with
  | new localQuota textQuota => exact separates_new localQuota textQuota
  | request o q _ ih => exact Request.separates ih o q

/-! ### Code that begins with an effect -/

/-- The code begins with an instruction, and holds no other of the kind. -/
def OnceFirst (kind : Instr → Bool) (i : Instr) (code : List Instr) : Prop :=
  code.head? = some i ∧ code.filter kind = [i]

theorem onceFirst_cons {kind : Instr → Bool} {i : Instr} {rest : List Instr} (hi : kind i = true)
    (hrest : rest.filter kind = []) : OnceFirst kind i (i :: rest) :=
  ⟨rfl, by rw [List.filter_cons_of_pos hi, hrest]⟩

/-- What becomes of the effects of an expression in code that evaluates it. -/
structure Expr.EvaluatedOnce (e : Expr) (users : List Nat) (spared : Bool) (texts : Array String)
    (code : List Instr) : Prop where
  /-- A call is the first thing to happen, and there is no other. -/
  invoke : ∀ routine returns, e.kind = .invoke routine returns → ∃ j,
    texts[j]? = some routine ∧ OnceFirst Instr.isInvoke (.invoke j (returns != .void)) code
  /-- What is no call calls nothing. -/
  quiet : (∀ routine returns, e.kind ≠ .invoke routine returns) →
    code.filter Instr.isInvoke = []
  /-- A variable is read first, its value or its address, and not used again; or not at all, if
  that is spared. -/
  load : ∀ p x, e.kind = .load p → p.Reads x → x.IsOf users →
    if spared then code.filter (Instr.uses x) = []
    else OnceFirst (Instr.uses x) x.load code ∨ OnceFirst (Instr.uses x) x.address code

/-- Code that begins with one of the things that an expression does, if that is not spared, and
goes on without effects. -/
theorem Expr.EvaluatedOnce.of_first {spared : Bool} {first : Script Rep} {r : Rep} {N : Numbering}
    {rest : List Instr} {texts : Array String}
    (hspared : ∀ routine returns, e.kind = .invoke routine returns → spared = false)
    (he : ∀ p, e.kind = .load p → ∃ x, p.Reads x ∧ x.IsOf users)
    (hfirst : first ∈ if spared then [return .void] else e.sources) (hr : first.result = .ok r)
    (htext : ∀ t ∈ first.steps, ∀ name, t.interned? = some name →
      texts[N.text name]? = some name)
    (hquiet : rest.filter Instr.isInvoke = [])
    (huses : ∀ x : Storage, x.IsOf users → rest.filter (Instr.uses x) = []) :
    e.EvaluatedOnce users spared texts (N.code first.steps ++ rest) := by
  -- where evaluation is spared, or where a literal is loaded, there is nothing but the rest
  have nothing : first = (return .void) → (∀ routine returns, e.kind ≠ .invoke routine returns) →
      (∀ p, e.kind = .load p → spared = true) →
      e.EvaluatedOnce users spared texts (N.code first.steps ++ rest) := by
    rintro rfl hinvoke hload
    refine ⟨fun routine returns h => absurd h (hinvoke routine returns), fun _ => hquiet,
      fun p x h _ hx => ?_⟩
    rw [if_pos (hload p h)]
    exact huses x hx
  cases hkind : e.kind with
  | literal c =>
    have hvoid : first = (return .void) := by
      unfold sources at hfirst
      rw [hkind, ite_self] at hfirst
      exact List.mem_singleton.1 hfirst
    exact nothing hvoid (by simp [hkind]) (by simp [hkind])
  | invoke routine returns =>
    rw [hspared routine returns hkind] at hfirst ⊢
    unfold sources at hfirst
    rw [hkind] at hfirst
    obtain rfl : first = .invoke routine returns := List.mem_singleton.1 hfirst
    refine ⟨fun routine' returns' h => ?_, fun h => absurd hkind (h routine returns),
      fun p x h => ?_⟩
    · rw [hkind] at h
      cases h
      exact ⟨_, htext _ List.mem_cons_self routine rfl, onceFirst_cons rfl hquiet⟩
    · rw [hkind] at h
      cases h
  | load p =>
    have hinvoke : ∀ routine returns, e.kind ≠ .invoke routine returns := by simp [hkind]
    cases spared with
    | true => exact nothing (List.mem_singleton.1 hfirst) hinvoke fun _ _ => rfl
    | false =>
      have hfirst : first ∈ p.accesses := by
        unfold sources at hfirst
        rwa [hkind] at hfirst
      refine ⟨fun routine returns h => absurd h (hinvoke routine returns), fun _ => ?_,
        fun p' x h hx hof => ?_⟩
      · obtain ⟨x, hx, -⟩ := he p hkind
        rcases hx.code_accesses N hfirst hr with h | h <;> simp [h, hquiet]
      · rw [hkind] at h
        cases h
        rw [if_neg Bool.false_ne_true]
        rcases hx.code_accesses N hfirst hr with h | h <;> rw [h]
        · exact .inl (onceFirst_cons x.uses_load (huses x hof))
        · exact .inr (onceFirst_cons x.uses_address (huses x hof))

/-- **Effects are evaluated once.**  Whatever has been requested before, under whatever options, an
expression that is a literal, a call, or the load of an argument or a local of the user is
evaluated into a representation, into a float or into an array.  If that succeeds, the code of a
call begins with the call of its routine, whatever is known or hinted about its value, and calls no
other; nothing else calls a routine.  The code of a load begins with an access to the variable and
does not use it again, unless the evaluation is spared, and then does not use it at all.  What is
evaluated for no value leaves the depth of the operand stack as it is and nothing behind, provided
that a place that is loaded holds a value. -/
theorem effects_evaluated_once (hs : Granted (.standard T k) users s) (hq : q.Evaluates e)
    (he : ∀ p, e.kind = .load p → ∃ x, p.Reads x ∧ x.IsOf users)
    (h : q.answer (.standard T k) o s = .ok reply s') :
    ∃ code, s'.builder.instrs.toList = s.builder.instrs.toList ++ code ∧
      e.EvaluatedOnce users (q.spares (.standard T k) o) s'.builder.texts code ∧
      (q = .convertExpr e .void → (∀ p, e.kind = .load p → p.load.result ≠ .ok .void) →
        s'.builder.depth = s.builder.depth ∧ Discards .standard code) := by
  obtain ⟨plan, hplan, hbegins⟩ := hq.begins (S := .standard T k) (o := o)
  rw [Request.answer_eq_run hplan] at h
  obtain ⟨hresult, hperform⟩ := run_eq_ok.1 h
  have hcode := performAll_code hperform
  have hseparates : Separates users s' :=
    ((steady_separates .standard users).run plan).of_eq_ok hs.separates h
  refine ⟨_, hcode, ?_, ?_⟩
  · obtain ⟨first, hfirst, r, rest, hr, hsteps, hsymbolic, hquiet⟩ := hbegins reply hresult
    have hvalid := numbers_of_performAll hperform hseparates.sound s.builder.labels
    rw [hsteps, Numbering.code_append]
    refine .of_first (fun _ _ => hq.spares_eq_false) he hfirst hr
      (fun t ht => hvalid.text t (hsteps ▸ List.mem_append_left _ ht))
      (filter_code_of_quiet hquiet) fun x hx => Numbering.filter_uses_code hsymbolic ?_ hx
    intro t ht r' hr'
    rw [Numbering.slot_afterAll]
    have hlookup := lookup_slot_of_performAll hperform (.refl s') s.builder.labels
      (hsteps ▸ List.mem_append_right _ ht) hr'
    exact hseparates.apart _ (mem_pool_of_lookup hlookup)
  · rintro rfl hvoid
    have hdiscards : Discards .standard ((s'.numbering s.builder.labels).code plan.steps) := by
      cases hplan
      obtain ⟨r, hr⟩ := Script.exists_result_of_map hresult
      rw [Script.steps_map]
      exact Scope.discards_convertExpr
        (fun p hp => ⟨hvoid p hp, (he p hp).imp fun _ => And.left⟩) hr _
    refine ⟨?_, hdiscards⟩
    rw [depth_performAll hperform _ hdiscards.ne_mark]
    exact hdiscards.foldl_depthAfter _

/-- A call that returns a nullable is converted to text though null is known to be its value, and
then a nullable in a local is evaluated for nothing. -/
theorem effects_evaluated_once_nullable : ∃ (call load : Expr) (s s' s'' : Session)
    (code code' : List Instr), Granted (.standard .new none) [0] s ∧
    Granted (.standard .new none) [0] s' ∧
    (Request.convertExpr call .text).answer (.standard .new none) .standard s =
      .ok (.rep .text) s' ∧
    (Request.convertExpr load .void).answer (.standard .new none) .unoptimized s' =
      .ok (.rep .void) s'' ∧
    s'.builder.instrs.toList = s.builder.instrs.toList ++ code ∧ .brFalse ⟨0⟩ ∈ code ∧
    (∃ j, s'.builder.texts[j]? = some "next" ∧
      OnceFirst Instr.isInvoke (.invoke j true) code) ∧
    s''.builder.instrs.toList = s'.builder.instrs.toList ++ code' ∧
    (OnceFirst (Instr.uses (.slot 0)) (.ldLoc 0) code' ∨
      OnceFirst (Instr.uses (.slot 0)) (.ldLocA 0) code') ∧
    s''.builder.depth = s'.builder.depth ∧ Discards .standard code' := by
  let S := Scope.standard .new none
  let r : Rep := .nullable .int64
  let call : Expr := ⟨.invoke "next" r, .empty, some .null, .discard⟩
  let load : Expr := ⟨.load (.local 0 r), .empty, none, .readRef⟩
  let s := endOf ((Request.declare r 1).answer S .standard) (new none none)
  let s' := endOf ((Request.convertExpr call .text).answer S .standard) s
  have hs : Granted S [0] s := .request .standard (.declare r 1) (.new none none)
  have hs' : Granted S [0] s' := .request .standard (.convertExpr call .text) hs
  obtain ⟨t, ht⟩ : ∃ t, (Request.convertExpr call .text).answer S .standard s =
      .ok (.rep .text) t := by decide +kernel
  obtain rfl : s' = t := endOf_eq_ok ht
  obtain ⟨s'', hs''⟩ : ∃ t, (Request.convertExpr load .void).answer S .unoptimized s' =
      .ok (.rep .void) t := by decide +kernel
  obtain ⟨code, hcode, hcall, -⟩ :=
    effects_evaluated_once hs (e := call) (.convertExpr .text) (by simp [call]) ht
  have hplace : (Place.local 0 r).Reads (.slot 0) :=
    @Place.reads_of_read _ (.slot 0) (some r) (some r) rfl rfl
  have hread : ∀ p, load.kind = .load p → ∃ x, p.Reads x ∧ x.IsOf [0] := by
    rintro p ⟨⟩
    exact ⟨.slot 0, hplace, List.mem_cons_self⟩
  obtain ⟨code', hcode', hload, hvoid⟩ :=
    effects_evaluated_once hs' (e := load) (.convertExpr .void) hread hs''
  have hvalue : ∀ p, load.kind = .load p → p.load.result ≠ .ok .void := by
    rintro p ⟨⟩ h
    exact Rep.noConfusion (Except.ok.inj (show Except.ok r = .ok .void from h))
  obtain ⟨hdepth, hdiscards⟩ := hvoid rfl hvalue
  have hbranch : .brFalse ⟨0⟩ ∈ s'.builder.instrs.toList := by decide +kernel
  have hempty : s.builder.instrs.toList = [] := rfl
  refine ⟨call, load, s, s', s'', code, code', hs, hs', ht, hs'', hcode, ?_,
    hcall.invoke "next" r rfl, hcode', ?_, hdepth, hdiscards⟩
  · rwa [hcode, hempty, List.nil_append] at hbranch
  · exact hload.load _ (.slot 0) rfl hplace List.mem_cons_self

end Sessions

end Recast
