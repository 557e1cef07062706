import Recast.Proofs.History
import Recast.Proofs.TidyPlans
import Recast.Proofs.TypedRequests

/-!
# Use of scratch locals

The pool keeps one scratch local for each representation, and all conversions of that
representation share it.  They may: whatever has been requested before and will be afterwards, by
whichever requests and with whatever outcome, no request disturbs a value that is still in use, be
it its own or the user's.

* `Request.Careful` : the user takes addresses of no locals but the user's own;
* `Session.Leads` : careful requests lead from one session to another;
* `Session.Leads.upkeep` : all along, the pool and the user's locals stay apart, and the code is
  guarded;
* `Request.emission` : a request stores only in slots of the pool, and what it stores is what they
  are declared with;
* `scratch_locals_used_safely` : **scratch locals are used safely**.

The locals of the pool and those of the user are told apart by who declared them.  Nothing is said
about code for which the user asked the address of a value of their own (`Request.spill`): what
becomes of that address is up to the user.
-/

namespace Recast

open Session

/-! ### What is stored -/

/-- An operand that holds a value of the representation holds no value of another one. -/
def Rep.isExact (r : Rep) : Bool := !r.isReference && r != .bool && r != .int32

/-- The step names nothing by a number, and stores only what is exactly of the representation that
it says. -/
def Step.isExact : Step → Bool
  | .emit i => !i.isNumbered
  | .store r => r.isExact
  | _ => true

theorem Operand.eq_value_of_isExact {T : ClassTable} {r : Rep} {e : Operand}
    (hr : r.isExact = true) (h : e.fits T r = true) : e = .value r := by
  simp only [Rep.isExact, Bool.and_eq_true, Bool.not_eq_true', bne_iff_ne] at hr
  obtain ⟨⟨href, hbool⟩, hint⟩ := hr
  obtain ⟨q, rfl, hq⟩ := eq_of_fits href h
  have hstacked : r.stacked = r := by
    cases r <;> first | rfl | exact absurd rfl hbool
  rw [hstacked] at hq
  cases q with
  | bool => exact absurd hq.symm hint
  | _ => rw [← hq]; rfl

/-- **Only values are stored** of which the operand tells the representation. -/
theorem Scope.congruence_exact (S : Scope) :
    S.Congruence S fun _ p _ => p.all Step.isExact = true := by
  refine .ofAll (fun i hi => by simp [Step.isExact, hi]) (fun _ => rfl) (fun r op hop => ?_)
    fun _ => rfl
  have hexact : r.isExact = true := by
    cases op <;> first | (cases hop; done) | (cases hop; rfl)
  simp [Step.isExact, hexact]

/-! ### Typed code as far as it is taken -/

section Taken

variable {S : Scope} {ts us : List Step} {N : Numbering} {locals locals' : Array Rep} {f : Flow}
  {σ σ' : List Operand} {r : Rep} {code : List Instr} {i : Instr}

theorem Numbering.exists_of_mem_code (h : i ∈ N.code ts) :
    ∃ t ∈ ts, ∃ M : Numbering, M.slot = N.slot ∧ M.instr? t = some i := by
  induction ts generalizing N with
  | nil => cases h
  | cons t ts ih =>
    rcases List.mem_append.1 h with h | h
    · exact ⟨t, List.mem_cons_self, N, rfl, Option.mem_toList.1 h⟩
    · obtain ⟨t', ht', M, hM, hi⟩ := ih h
      exact ⟨t', List.mem_cons_of_mem _ ht', M, hM.trans (N.slot_after t), hi⟩

theorem Numbering.code_congr_slot {slot' : Rep → Nat}
    (h : ∀ t ∈ ts, ∀ r, t.scratch? = some r → slot' r = N.slot r) :
    { N with slot := slot' }.code ts = N.code ts := by
  induction ts generalizing N with
  | nil => rfl
  | cons t ts ih =>
    rw [List.forall_mem_cons] at h
    have hfirst : { N with slot := slot' }.instr? t = N.instr? t := by
      cases t with
      | store r | address r => simp only [instr?, h.1 r rfl]
      | _ => rfl
    have hafter : { N with slot := slot' }.after t = { N.after t with slot := slot' } := by
      cases t <;> rfl
    rw [code_cons, code_cons, hfirst, hafter]
    refine congrArg _ (ih fun t' ht' r hr => ?_)
    rw [slot_after]
    exact h.2 t' ht' r hr

theorem Flow.check_congr
    (h : ∀ i ∈ code, ∀ slot, i.slot? = some slot → locals[slot]? = locals'[slot]?) :
    check (S.frame locals) code f = check (S.frame locals') code f := by
  induction code generalizing f with
  | nil => rfl
  | cons i code ih =>
    rw [List.forall_mem_cons] at h
    have hstep : f.step (S.frame locals) i = f.step (S.frame locals') i := by
      cases i with
      | ldLoc slot | ldLocA slot | stLoc slot =>
        simp only [step, Instr.retype, Scope.frame, h.1 slot rfl]
      | _ => rfl
    rw [check_cons, check_cons, hstep]
    congr 1
    funext f
    exact ih h.2

/-- What has been taken of typed steps is accepted by the checker, though there may be no slots for
what the others would have taken hold of. -/
theorem Scope.Typed.check_taken (h : S.Typed (ts ++ us) σ σ')
    (hslots : ∀ t ∈ ts, ∀ r, t.scratch? = some r → locals[N.slot r]? = some r)
    (hdeclared : ∀ i, .emit i ∈ ts → ∀ slot, i.slot? = some slot → slot < locals.size) :
    ∃ f, Flow.check (S.frame locals) (N.code ts) (.start σ) = some f := by
  -- further slots for all that the steps take hold of
  let reps := (ts ++ us).filterMap Step.scratch?
  let all := locals ++ reps.toArray
  let slot' : Rep → Nat := fun r =>
    if locals[N.slot r]? = some r then N.slot r else locals.size + reps.idxOf r
  have hslots' : ∀ t ∈ ts ++ us, ∀ r, t.scratch? = some r → all[slot' r]? = some r := by
    intro t ht r hr
    simp only [all, slot']
    split_ifs with hlocal
    · obtain ⟨hlt, -⟩ := Array.getElem?_eq_some_iff.1 hlocal
      rw [Array.getElem?_append_left hlt, hlocal]
    · rw [Array.getElem?_append_right (Nat.le_add_right _ _), Nat.add_sub_cancel_left,
        List.getElem?_toArray]
      exact List.getElem?_idxOf (List.mem_filterMap.2 ⟨t, ht, hr⟩)
  have hcode : { N with slot := slot' }.code ts = N.code ts :=
    Numbering.code_congr_slot fun t ht r hr => if_pos (hslots t ht r hr)
  obtain ⟨f, hcheck, -⟩ :=
    h { N with slot := slot' } all (.start σ) hslots' rfl (Flow.fresh_start σ _)
  rw [Numbering.code_append, Flow.check_append, Option.bind_eq_some_iff, hcode] at hcheck
  obtain ⟨f₀, hcheck, -⟩ := hcheck
  refine ⟨f₀, hcheck ▸ Flow.check_congr fun i hi slot hslot => ?_⟩
  have hlt : slot < locals.size := by
    obtain ⟨t, ht, M, hM, hinstr⟩ := Numbering.exists_of_mem_code hi
    cases t with
    | emit j =>
      cases hinstr
      exact hdeclared i ht slot hslot
    | store r | address r =>
      cases hinstr
      cases hslot
      rw [hM]
      exact (Array.getElem?_eq_some_iff.1 (hslots _ ht r rfl)).1
    | reserve r | fork => cases hinstr
    | _ =>
      cases hinstr
      cases hslot
  exact (Array.getElem?_append_left hlt).symm

/-- **Typed steps store what they say**: where the code stores, a value of just the representation
that the slot is declared with is on top. -/
theorem Scope.Typed.stores (h : S.Typed (ts ++ us) σ σ')
    (hslots : ∀ t ∈ ts, ∀ r, t.scratch? = some r → locals[N.slot r]? = some r)
    (hdeclared : ∀ i, .emit i ∈ ts → ∀ slot, i.slot? = some slot → slot < locals.size)
    {slot : Nat} {pre post : List Instr} (hcode : N.code ts = pre ++ .stLoc slot :: post)
    (hlocal : locals[slot]? = some r) (hexact : r.isExact = true) :
    ∃ f τ, Flow.check (S.frame locals) pre (.start σ) = some f ∧
      f.stack = some (.value r :: τ) := by
  obtain ⟨f', hcheck⟩ := h.check_taken (N := N) hslots hdeclared
  rw [hcode, Flow.check_append, Option.bind_eq_some_iff] at hcheck
  obtain ⟨f, hcheck, hrest⟩ := hcheck
  rw [Flow.check_cons, Option.bind_eq_some_iff] at hrest
  obtain ⟨f₁, hstep, -⟩ := hrest
  obtain ⟨τ, hstack, hstep⟩ := Option.bind_eq_some_iff.1 hstep
  obtain ⟨τ', hretype, -⟩ := Option.map_eq_some_iff.1 hstep
  simp only [Instr.retype, Scope.frame, hlocal, Option.bind_some] at hretype
  cases τ with
  | nil => cases hretype
  | cons e τ =>
    rw [replaceTop] at hretype
    split_ifs at hretype with hfits
    rw [Operand.eq_value_of_isExact hexact hfits] at hstack
    exact ⟨f, τ, hcheck, hstack⟩

end Taken

namespace Session

/-! ### The pool and the user's locals -/

/-- The slots of the pool, each under its representation. -/
def pool (s : Session) : List (Rep × Nat) := s.scratch.active ++ s.scratch.released

/-- Some locals are the user's: they are declared, and none of them is in the pool. -/
structure Separates (users : List Nat) (s : Session) : Prop where
  /-- The slots of the pool are declared, each with its representation. -/
  sound : s.Sound
  /-- No slot of the pool is the user's. -/
  apart : ∀ p ∈ s.pool, p.2 ∉ users
  /-- The slots of the user are declared. -/
  declared : ∀ slot ∈ users, slot < s.builder.locals.size

section Pool

variable {C : Catalog} {users : List Nat} {s s' : Session} {r : Rep} {slot : Nat} {p : Rep × Nat}

theorem mem_pool_of_lookup (h : s.scratch.active.lookup r = some slot) : (r, slot) ∈ s.pool :=
  List.mem_append_left _ (ScratchPool.mem_of_lookup h)

theorem pool_acquire (h : acquire r s = .ok slot s') :
    (∀ p, p ∈ s'.pool ↔ p ∈ s.pool ∨ p = (r, slot)) ∧
      (((r, slot) ∈ s.pool ∧ s'.builder.locals = s.builder.locals) ∨
        (slot = s.builder.locals.size ∧ s'.builder.locals = s.builder.locals.push r)) := by
  obtain ⟨t, htake, hs'⟩ := acquire_eq_ok h
  have hb : s'.builder = t.builder := by rw [hs']
  rw [hb]
  unfold pool
  rcases ScratchPool.held_of_take htake with
    ⟨hmem, hheld, -, ht⟩ | ⟨-, -, hheld, -, hdeclare⟩
  · refine ⟨fun p => ?_, .inl ⟨hmem, by rw [ht]⟩⟩
    rw [hheld.mem_iff]
    exact ⟨.inl, fun hp => hp.elim id (· ▸ hmem)⟩
  · obtain ⟨hslot, -, hlocals⟩ := declareLocal_eq_ok (attempt_eq_ok.1 hdeclare)
    refine ⟨fun p => ?_, .inr ⟨hslot, by rw [hlocals]⟩⟩
    rw [hheld, List.mem_cons, or_comm]

theorem steady_pool (C : Catalog) (p : Rep × Nat) : Steady C fun s => p ∈ s.pool :=
  .of_acquire (fun s t hscratch _ hs => by rwa [pool, hscratch])
    fun s r slot t h hs => ((pool_acquire h).1 p).2 (.inl hs)

theorem steady_separates (C : Catalog) (users : List Nat) : Steady C (Separates users) := by
  refine .of_acquire (fun s t hscratch hlocals hs => ?_) fun s r slot t h hs => ?_
  · have hpool : t.pool = s.pool := by rw [pool, hscratch, pool]
    refine ⟨fun p hp => ?_, fun p hp => hs.apart p (hpool ▸ hp), fun slot hslot => ?_⟩
    · rw [hlocals]
      exact hs.sound p (hscratch ▸ hp)
    · rw [hlocals]
      exact hs.declared slot hslot
  · obtain ⟨hpool, hslot⟩ := pool_acquire h
    refine ⟨hs.sound.acquire h, fun p hp => ?_, fun slot' hslot' => ?_⟩
    · rcases (hpool p).1 hp with hp | rfl
      · exact hs.apart p hp
      · rcases hslot with ⟨hmem, -⟩ | ⟨rfl, -⟩
        · exact hs.apart _ hmem
        · exact fun hmem => Nat.lt_irrefl _ (hs.declared _ hmem)
    · rcases hslot with ⟨-, hlocals⟩ | ⟨-, hlocals⟩ <;> rw [hlocals]
      · exact hs.declared slot' hslot'
      · rw [Array.size_push]
        exact Nat.lt_succ_of_lt (hs.declared slot' hslot')

end Pool

end Session

/-! ### Requests -/

/-- A step loads an argument, a local of the user or its address, or what a routine returns. -/
def Step.Loads (users : List Nat) : Step → Prop
  | .emit (.ldArg _) | .emit (.ldArgA _) | .invoke .. => True
  | .emit (.ldLoc slot) | .emit (.ldLocA slot) => slot ∈ users
  | _ => False

namespace Request

/-- A request leaves the slots of the pool alone: what the user emits takes the address of no
local but the user's, and a place emits loads only. -/
def Careful (users : List Nat) : Request → Prop
  | spill _ => False
  | emit i => i.Harmless users
  | q => ∀ first ∈ q.own, ∀ t ∈ first.steps, t.Loads users

/-- The slots that a request declares for the user, if it leads from a session to another. -/
def declared (s s' : Session) : Request → List Nat
  | declare .. =>
    List.range' s.builder.locals.size (s'.builder.locals.size - s.builder.locals.size)
  | _ => []

end Request

/-- Requests lead from a session to another, whatever becomes of them and under whatever options.
The user has declared some slots before, and some after. -/
inductive Session.Leads (S : Scope) (users : List Nat) (s : Session) : List Nat → Session → Prop
  /-- Nothing is requested. -/
  | refl : Leads S users s users s
  /-- A request is answered. -/
  | request {users' : List Nat} {s' : Session} (o : Options) (q : Request)
      (h : Leads S users s users' s') (hq : q.Careful users') :
      Leads S users s (users' ++ q.declared s' (endOf (q.answer S o) s')) (endOf (q.answer S o) s')

/-- What requests that are careful see to. -/
structure Session.Upkeep (users : List Nat) (s : Session) (users' : List Nat) (s' : Session) :
    Prop where
  /-- The user's slots stay the user's. -/
  users : users ⊆ users'
  /-- The user's slots and the pool stay apart. -/
  separates : Separates users' s'
  /-- Slots stay in the pool. -/
  pool : s.pool ⊆ s'.pool
  /-- The code appended is guarded. -/
  code : ∃ code, s'.builder.instrs.toList = s.builder.instrs.toList ++ code ∧
    ∀ all, users' ⊆ all → (∀ p ∈ s'.pool, p.2 ∉ all) → Guards all code

section Requests

variable {T : ClassTable} {k : Option ClassId} {o : Options} {q : Request} {plan : Script Reply}
  {users users' users'' all : List Nat} {t : Step} {ts : List Step} {s s' s'' : Session}
  {code : List Instr}

theorem Step.Loads.harmless (h : t.Loads users) (hall : users ⊆ all) : t.Harmless all := by
  cases t with
  | emit i =>
    rintro slot rfl
    exact hall h
  | invoke x b => trivial
  | _ => exact h.elim

theorem Place.Variable.loads {p : Place} {r : Rep} {load addr : Instr}
    (hp : p.Variable r load addr) (hload : (Step.emit load).Loads users)
    (haddr : (Step.emit addr).Loads users) :
    ∀ first ∈ p.own, ∀ t ∈ first.steps, t.Loads users := by
  have hsteps : p.load.steps = [.emit load] ∧ p.loadAddress.steps = [.emit addr] := by
    cases hp <;> exact ⟨rfl, rfl⟩
  simp [Place.own, hsteps.1, hsteps.2, hload, haddr]

theorem Session.Upkeep.refl (hs : Separates users s) : Upkeep users s users s where
  users := fun _ => id
  separates := hs
  pool := fun _ => id
  code := ⟨[], (List.append_nil _).symm, fun _ _ _ => .of_harmless (by simp)⟩

theorem Session.Upkeep.trans (h : Upkeep users s users' s') (h' : Upkeep users' s' users'' s'') :
    Upkeep users s users'' s'' where
  users := fun _ hslot => h'.users (h.users hslot)
  separates := h'.separates
  pool := fun _ hp => h'.pool (h.pool hp)
  code := by
    obtain ⟨code, hcode, hguards⟩ := h.code
    obtain ⟨code', hcode', hguards'⟩ := h'.code
    refine ⟨code ++ code', by rw [hcode', hcode, List.append_assoc], fun all husers hpool => ?_⟩
    have hguards := hguards all (fun _ hslot => husers (h'.users hslot)) fun p hp =>
      hpool p (h'.pool hp)
    exact hguards.append (hguards' all husers hpool)

/-- A plan that is carried out appends guarded code, if its steps are orderly. -/
theorem Orderly.guards (h : Orderly all ts) (hs' : endOf (performAll .standard ts) s = s')
    (hpool : ∀ p ∈ s'.pool, p.2 ∉ all)
    (hcode : s'.builder.instrs.toList = s.builder.instrs.toList ++ code) : Guards all code := by
  obtain ⟨done, rest, s₀, rfl, hperform, hgrows, hinstrs, htidy⟩ := h.taken s
  rw [hs'] at hgrows hinstrs
  rw [hinstrs, performAll_code_of_grows hperform hgrows] at hcode
  rw [← List.append_cancel_left hcode]
  refine htidy _ fun t ht r hr => ?_
  have hlookup := lookup_slot_of_performAll hperform hgrows s.builder.labels ht hr
  exact hpool _ (mem_pool_of_lookup hlookup)

theorem Request.Careful.loads (hq : q.Careful users)
    (hplan : q.plan? (.standard T k) o = some plan) :
    ∀ first ∈ q.own, ∀ t ∈ first.steps, t.Loads users := by
  cases q <;> first | exact hq | cases hplan

/-- **The plan of a careful request is orderly.** -/
theorem Request.orderly_plan? (hplan : q.plan? (.standard T k) o = some plan)
    (hq : q.Careful users) (hall : users ⊆ all) : Orderly all plan.steps := by
  obtain ⟨first, hfirst, rest, hsteps, hrest⟩ :=
    continues_plan? (Scope.congruence_orderly T k all) hplan
  rw [hsteps]
  exact (Orderly.of_harmless fun t ht =>
    (hq.loads hplan first hfirst t ht).harmless hall).append hrest

theorem Session.Upkeep.performAll (hs : Separates users s)
    (hts : ∀ all, users ⊆ all → Orderly all ts) :
    Upkeep users s users (endOf (Session.performAll .standard ts) s) where
  users := fun _ => id
  separates := (steady_separates .standard users).performAll ts s hs
  pool := fun p hp => (steady_pool .standard p).performAll ts s hp
  code := by
    obtain ⟨done, rest, s₀, -, hperform, -, hinstrs, -⟩ := (hts users fun _ => id).taken s
    have hcode := performAll_code hperform
    rw [← hinstrs] at hcode
    exact ⟨_, hcode, fun all hall hpool => (hts all hall).guards rfl hpool hcode⟩

theorem Session.Separates.append {added : List Nat} (hs : Separates users s) (hs' : s'.Sound)
    (hpool : s'.pool = s.pool) (hsize : s.builder.locals.size ≤ s'.builder.locals.size)
    (hadded : ∀ slot ∈ added, s.builder.locals.size ≤ slot ∧ slot < s'.builder.locals.size) :
    Separates (users ++ added) s' where
  sound := hs'
  apart p hp hmem := by
    rw [hpool] at hp
    rcases List.mem_append.1 hmem with hmem | hmem
    · exact hs.apart p hp hmem
    · obtain ⟨hlt, -⟩ := Array.getElem?_eq_some_iff.1 (hs.sound p hp)
      exact Nat.lt_irrefl _ (Nat.lt_of_lt_of_le hlt (hadded _ hmem).1)
  declared slot hmem := by
    rcases List.mem_append.1 hmem with hmem | hmem
    · exact Nat.lt_of_lt_of_le (hs.declared slot hmem) hsize
    · exact (hadded slot hmem).2

theorem Session.preserves_declareMany (s : Session) (r : Rep) (count : Nat) :
    Preserves (fun t => t.pool = s.pool ∧ s.builder.locals.size ≤ t.builder.locals.size ∧
      t.builder.instrs = s.builder.instrs) (Request.declareMany r count) := by
  refine .declareMany (fun r => .attempt fun s₀ j s₁ hs₀ h => ?_) r count
  obtain ⟨-, hscratch, hb⟩ := declareLocal_eq_ok h
  rw [pool, hscratch, hb, Array.size_push]
  exact ⟨hs₀.1, Nat.le_succ_of_le hs₀.2.1, hs₀.2.2⟩

/-- **The user's locals stay apart from the pool**, whatever is requested. -/
theorem Request.separates {S : Scope} (hs : Separates users s) (o : Options) (q : Request) :
    Separates (users ++ q.declared s (endOf (q.answer S o) s)) (endOf (q.answer S o) s) := by
  have hsteady := steady_separates S.catalog users
  have kept : q.declared s (endOf (q.answer S o) s) = [] →
      Preserves (Separates users) (q.answer S o) →
      Separates (users ++ q.declared s (endOf (q.answer S o) s)) (endOf (q.answer S o) s) := by
    intro hdeclared h
    rw [hdeclared, List.append_nil]
    exact h s hs
  have hsound := (invariant_sound S.catalog).answer (o := o) q s hs.sound
  cases q with
  | declare r count =>
    obtain ⟨hpool, hsize, -⟩ :=
      (preserves_declareMany s r count).map Reply.index s ⟨rfl, Nat.le_refl _, rfl⟩
    refine hs.append hsound hpool hsize fun slot hslot => ?_
    rw [declared, List.mem_range'_1] at hslot
    omega
  | endStatement => exact hs.append hsound rfl (Nat.le_refl _) (by simp [declared])
  | emit i => exact kept rfl ((hsteady.emit i).bind fun _ => .pure _)
  | intern t => exact kept rfl ((hsteady.intern t).map _)
  | label => exact kept rfl (hsteady.defineLabel.map _)
  | spill r => exact kept rfl ((hsteady.spill r).map _)
  | _ => exact kept rfl (hsteady.run _)

/-- **Careful requests see to the pool.** -/
theorem Request.upkeep (hs : Separates users s) (hq : q.Careful users)
    (hs' : endOf (q.answer (.standard T k) o) s = s') :
    Upkeep users s (users ++ q.declared s s') s' := by
  -- where a plan is carried out, nothing is declared for the user
  have planned : ∀ {plan : Script Reply}, q.plan? (.standard T k) o = some plan →
      q.declared s s' = [] → Upkeep users s (users ++ q.declared s s') s' := by
    intro plan hplan hdeclared
    rw [hdeclared, List.append_nil, ← hs', answer_eq_run hplan, endOf_run]
    exact .performAll hs fun all => orderly_plan? hplan hq
  -- other requests, but for instructions, leave the pool and the code as they are
  have unplanned : Preserves (fun t => t.pool = s.pool ∧
        s.builder.locals.size ≤ t.builder.locals.size ∧ t.builder.instrs = s.builder.instrs)
        (q.answer (.standard T k) o) → Upkeep users s (users ++ q.declared s s') s' := by
    intro h
    obtain ⟨hpool, -, hinstrs⟩ := h s ⟨rfl, Nat.le_refl _, rfl⟩
    have hseparates := Request.separates (S := .standard T k) hs o q
    rw [hs'] at hpool hinstrs hseparates
    refine ⟨fun _ => List.mem_append_left _, hseparates, fun p hp => hpool ▸ hp, [], ?_,
      fun _ _ _ => .of_harmless (by simp)⟩
    rw [hinstrs, List.append_nil]
  cases q with
  | emit i =>
    have hend : endOf (Session.performAll .standard [.emit i]) s = s' :=
      (endOf_bind_pure _ _ s).trans ((endOf_bind_pure _ _ s).symm.trans hs')
    change Upkeep users s (users ++ []) s'
    rw [List.append_nil, ← hend]
    exact .performAll hs fun all hall =>
      .of_tidy (.of_harmless fun slot hslot => hall (hq slot hslot))
  | intern t =>
    refine unplanned (.map _ (.attempt fun s₀ j s₁ hs₀ h => ?_))
    obtain ⟨-, hscratch, hb⟩ := internText_eq_ok h
    rw [pool, hscratch, hb]
    exact hs₀
  | declare r count => exact unplanned ((preserves_declareMany s r count).map _)
  | label => exact unplanned (.map _ fun s₀ hs₀ => hs₀)
  | endStatement => exact unplanned (.bind (fun s₀ hs₀ => hs₀) fun _ => .pure _)
  | spill source => exact hq.elim
  | _ => exact planned rfl rfl

/-- **Whatever is requested, the pool and the user's locals stay apart**, and the code is
guarded. -/
theorem Session.Leads.upkeep (h : Leads (.standard T k) users s users' s')
    (hs : Separates users s) : Upkeep users s users' s' := by
  induction h with
  | refl => exact .refl hs
  | request o q _ hq ih => exact ih.trans (Request.upkeep ih.separates hq rfl)

theorem Session.separates_new (localQuota textQuota : Option Nat) :
    Separates [] (new localQuota textQuota) where
  sound := (invariant_sound .standard).new localQuota textQuota
  apart _ hp := by cases hp
  declared _ hslot := by cases hslot

end Requests

/-! ### Use of scratch locals -/

/-- What a request that leads from a session to another emits: an opening, as far as it goes, and
what follows it.  Only the latter stores, and only in slots of the pool. -/
structure Emission (S : Scope) (users : List Nat) (s s' : Session) (first : Script Rep)
    (left : List Operand → Prop) (own body : List Instr) : Prop where
  /-- The code is appended. -/
  appended : s'.builder.instrs.toList = s.builder.instrs.toList ++ (own ++ body)
  /-- It starts with the opening. -/
  opening : ∃ taken, taken <+: first.steps ∧ own = (s'.numbering s.builder.labels).code taken ∧
    (taken = first.steps ∨ body = [])
  /-- The opening stores nothing. -/
  silent : ∀ slot, .stLoc slot ∉ own
  /-- A slot that is stored in is one of the pool and not the user's, and the value on top is just
  of the representation that the slot is declared with, on whatever operands the opening leaves. -/
  stores : ∀ pre slot post, body = pre ++ .stLoc slot :: post → ∃ r,
    s'.scratch.active.lookup r = some slot ∧ slot ∉ users ∧ s'.builder.locals[slot]? = some r ∧
      ∀ top σ, left top → ∃ f τ,
        Flow.check (S.frame s'.builder.locals) pre (.start (top ++ σ)) = some f ∧
        f.stack = some (.value r :: τ)

/-- What the code of a request does with slots of the pool on every way through the code of the
method, where the request leads from `s` to `s'` and the session ends in `t`. -/
structure ScratchUse (users : List Nat) (s s' t : Session) (code : List Instr) : Prop where
  /-- No slot of the pool is the user's. -/
  apart : ∀ p ∈ t.pool, p.2 ∉ users
  /-- The address of a slot of the pool is pushed only after the slot has been stored to in the
  request, and the slot is not stored to while its address is on the stack. -/
  admits : ∀ n u i, Reaches t.builder.instrs.toList s.builder.instrs.size
    (s.builder.instrs.size + n) u → code[n]? = some i → u.Admits users i
  /-- When the request is done, no address of a slot of the pool is on the stack. -/
  clean : ∀ p u, Reaches t.builder.instrs.toList p s'.builder.instrs.size u → u.Clean users

section ScratchUse

variable {T : ClassTable} {k : Option ClassId} {o : Options} {q : Request} {plan : Script Reply}
  {users users' : List Nat} {s s' t : Session}

theorem Step.eq_store {slot : Nat} {i : Step} {M : Numbering}
    (h : i.isExact = true ∨ i.Loads users) (hi : M.instr? i = some (.stLoc slot)) :
    ∃ r, i = .store r ∧ r.isExact = true ∧ slot = M.slot r := by
  cases i with
  | emit j =>
    cases hi
    rcases h with h | h
    · cases h
    · exact h.elim
  | store r =>
    cases hi
    exact ⟨r, rfl, h.resolve_right id, rfl⟩
  | reserve r | fork => cases hi
  | _ => cases hi

theorem Step.mem_of_slot? {i : Instr} {slot : Nat}
    (h : (Step.emit i).isExact = true ∨ (Step.emit i).Loads users) (hi : i.slot? = some slot) :
    slot ∈ users := by
  cases i with
  | ldLoc j | ldLocA j =>
    cases hi
    exact h.resolve_left Bool.false_ne_true
  | stLoc j =>
    rcases h with h | h
    · cases h
    · exact h.elim
  | _ => cases hi

/-- A plan stores of its own accord only, and exactly what it says. -/
theorem Request.exact_plan? (hplan : q.plan? (.standard T k) o = some plan)
    (hq : q.Careful users) : ∀ t ∈ plan.steps, t.isExact = true ∨ t.Loads users := by
  obtain ⟨first, hfirst, rest, hsteps, hrest⟩ :=
    continues_plan? (R := fun ts => ts.all Step.isExact = true)
      (Scope.congruence_exact (.standard T k)) hplan
  intro t ht
  rw [hsteps, List.mem_append] at ht
  exact ht.symm.imp (List.all_eq_true.1 hrest t) (hq.loads hplan first hfirst t)

/-- **A request stores only in slots of the pool**, and what it stores is what they are declared
with. -/
theorem Request.emission (hs : Separates users s) (hplan : q.plan? (.standard T k) o = some plan)
    (hq : q.Careful users) (hs' : endOf (q.answer (.standard T k) o) s = s')
    (hapart : ∀ p ∈ s'.pool, p.2 ∉ users') : ∃ first left own body, q.Opens T first left ∧
      Emission (.standard T k) users' s s' first left own body := by
  obtain ⟨first, left, hopen, rest, hsteps, -, hrest⟩ := supplies_plan? hplan
  obtain ⟨done, undone, s₀, hdone, hperform, hgrows, hinstrs, -⟩ :=
    (orderly_plan? hplan hq fun _ => id).taken s
  have hseparates := (steady_separates .standard users).performAll plan.steps s hs
  have hend : endOf (performAll .standard plan.steps) s = s' := by
    rw [← hs', answer_eq_run hplan]
    exact (endOf_run plan s).symm
  rw [hend] at hgrows hinstrs hseparates
  have hslots : ∀ t ∈ done, ∀ r, t.scratch? = some r →
      s'.scratch.active.lookup r = some ((s'.numbering s.builder.labels).slot r) :=
    fun t ht r hr => lookup_slot_of_performAll hperform hgrows _ ht hr
  have hexact : ∀ t ∈ done, t.isExact = true ∨ t.Loads users := fun t ht =>
    exact_plan? hplan hq t (hdone ▸ List.mem_append_left _ ht)
  have hcode := performAll_code_of_grows hperform hgrows
  rw [← hinstrs] at hcode
  -- the steps taken are those of the opening, and what follows if the opening is complete
  obtain ⟨taken, later, us, rfl, htaken, hcomplete, hlater⟩ : ∃ taken later us,
      done = taken ++ later ∧ taken <+: first.steps ∧ (taken = first.steps ∨ later = []) ∧
        rest.steps = later ++ us := by
    rw [hsteps] at hdone
    rcases List.append_eq_append_iff.1 hdone with ⟨later, rfl, hlater⟩ | ⟨bs, hfirst, -⟩
    · exact ⟨first.steps, later, undone, rfl, List.prefix_rfl, .inl rfl, hlater⟩
    · exact ⟨done, [], rest.steps, (List.append_nil _).symm, ⟨bs, hfirst.symm⟩, .inr rfl, rfl⟩
  rw [Numbering.code_append] at hcode
  refine ⟨first, left, _, _, hopen, hcode, ⟨taken, htaken, rfl, hcomplete.imp id ?_⟩,
    fun slot hslot => ?_, fun pre slot post hbody => ?_⟩
  · rintro rfl
    rfl
  · obtain ⟨t, ht, M, -, hi⟩ := Numbering.exists_of_mem_code hslot
    have hloads := hq.loads hplan first hopen.mem_own t (htaken.subset ht)
    obtain ⟨r, rfl, -⟩ := Step.eq_store (.inr hloads) hi
    exact hloads
  · obtain ⟨t, ht, M, hM, hi⟩ := Numbering.exists_of_mem_code
      (i := .stLoc slot) (hbody ▸ List.mem_append_right _ List.mem_cons_self)
    obtain ⟨r, rfl, hr, rfl⟩ := Step.eq_store (hexact t (List.mem_append_right _ ht)) hi
    rw [Numbering.slot_afterAll] at hM
    have hlookup := hslots _ (List.mem_append_right _ ht) r rfl
    rw [← hM] at hlookup
    have hlocal := hseparates.sound.local_of_lookup hlookup
    refine ⟨r, hlookup, hapart _ (mem_pool_of_lookup hlookup), hlocal, fun top σ htop => ?_⟩
    obtain ⟨top', htyped, -⟩ := hrest top htop
    have htyped := htyped σ
    rw [hlater] at htyped
    refine htyped.stores (fun t ht r hr => ?_) (fun i hi slot hslot => ?_) hbody hlocal hr
    · rw [Numbering.slot_afterAll]
      exact hseparates.sound.local_of_lookup (hslots t (List.mem_append_right _ ht) r hr)
    · have hi := hexact _ (List.mem_append_right _ hi)
      exact hseparates.declared slot (Step.mem_of_slot? hi hslot)

/-- **Scratch locals are used safely.**  Careful requests have led from a new session to one in
which a planned request is answered, with whatever outcome, and others lead on from there.  Then
what the request emits is an opening and what follows it, and only the latter stores.  It stores in
slots of the pool, which are declared for no user, neither before nor afterwards, and what it stores
is on the operands of the request a value of just the representation that the slot is declared
with.  On every way through the code that the method has in the end, the address of a slot of the
pool is pushed only once the slot has been stored to in the same request; as long as the address is
on the stack, the slot is not stored to again; and when the request is done, whatever became of it,
no address of a slot of the pool is on the stack. -/
theorem scratch_locals_used_safely {localQuota textQuota : Option Nat}
    (hbefore : Leads (.standard T k) [] (new localQuota textQuota) users s)
    (hplan : q.plan? (.standard T k) o = some plan) (hq : q.Careful users)
    (hs' : endOf (q.answer (.standard T k) o) s = s')
    (hafter : Leads (.standard T k) users s' users' t) :
    ∃ first left own body, q.Opens T first left ∧
      Emission (.standard T k) users' s s' first left own body ∧
      ScratchUse users' s s' t (own ++ body) := by
  have before := hbefore.upkeep (separates_new localQuota textQuota)
  have request : Upkeep users s users s' := by
    have h := Request.upkeep before.separates hq hs'
    have hdeclared : q.declared s s' = [] := by
      cases q <;> first | rfl | cases hplan
    rwa [hdeclared, List.append_nil] at h
  have after := hafter.upkeep request.separates
  have hapart : ∀ p ∈ t.pool, p.2 ∉ users' := after.separates.apart
  obtain ⟨first, left, own, body, hopen, hemission⟩ :=
    q.emission before.separates hplan hq hs' fun p hp => hapart p (after.pool hp)
  -- the code before the request, that of the request and that after it
  obtain ⟨pre, hpre, hguards⟩ := before.code
  obtain ⟨code, hcode, hguards'⟩ := request.code
  obtain ⟨post, hpost, hguards''⟩ := after.code
  obtain rfl : code = own ++ body := List.append_cancel_left (hcode.symm.trans hemission.appended)
  have hguards := hguards users' after.users fun p hp => hapart p (after.pool (request.pool hp))
  have hguards' := hguards' users' after.users fun p hp => hapart p (after.pool hp)
  have hguards'' := hguards'' users' (fun _ => id) hapart
  have hstart : s.builder.instrs.toList = pre := hpre
  have hsize : s.builder.instrs.size = pre.length := by
    rw [← hstart, Array.length_toList]
  have hsize' : s'.builder.instrs.size = (pre ++ (own ++ body)).length := by
    rw [← Array.length_toList, hcode, hstart]
  have hwhole : t.builder.instrs.toList = pre ++ (own ++ body ++ post) := by
    rw [hpost, hcode, hstart, List.append_assoc]
  refine ⟨first, left, own, body, hopen, hemission, hapart, fun n u i hreach hi => ?_,
    fun p u hreach => ?_⟩
  · rw [hwhole, hsize] at hreach
    refine hguards.admits (hguards'.append hguards'') hreach ?_
    rw [List.getElem?_append_left (List.getElem?_eq_some_iff.1 hi).1, hi]
  · rw [hwhole, ← List.append_assoc, hsize'] at hreach
    exact (hguards.append hguards').clean hguards'' hreach

/-- A nullable in a local of the user becomes text by way of two slots of the pool. -/
theorem scratch_locals_used_safely_nullable : ∃ (q : Request) (plan : Script Reply)
    (s s' t : Session), Leads (.standard .new none) [] (new none none) [0] s ∧
    q.plan? (.standard .new none) .standard = some plan ∧ q.Careful [0] ∧
    endOf (q.answer (.standard .new none) .standard) s = s' ∧
    Leads (.standard .new none) [0] s' [0] t ∧
    ∃ first left own body, q.Opens .new first left ∧
      Emission (.standard .new none) [0] s s' first left own body ∧
      ScratchUse [0] s s' t (own ++ body) ∧ .stLoc 1 ∈ body ∧ .stLoc 2 ∈ body := by
  let S := Scope.standard .new none
  let e : Expr := ⟨.load (.local 0 (.nullable .int64)), .empty, none, .discard⟩
  let q : Request := .convertExpr e .text
  let s := endOf ((Request.declare (.nullable .int64) 1).answer S .standard) (new none none)
  let s' := endOf (q.answer S .standard) s
  have unplaced : ∀ users, ∀ first ∈ [(return .void : Script Rep)],
      ∀ t ∈ first.steps, t.Loads users := by simp
  have hbefore : Leads S [] (new none none) [0] s :=
    .request .standard (.declare (.nullable .int64) 1) .refl (unplaced _)
  have hplan : q.plan? S .standard = some (.rep <$> S.convertExpr .standard e .text) := rfl
  have hq : q.Careful [0] :=
    (Place.Variable.local (r := .nullable .int64) 0).loads (by simp [Step.Loads])
      (by simp [Step.Loads])
  have hs' : endOf (q.answer S .standard) s = s' := rfl
  have hafter : Leads S [0] s' [0] (endOf (Request.endStatement.answer S .standard) s') :=
    .request .standard .endStatement .refl (unplaced _)
  obtain ⟨first, left, own, body, hopen, hemission, huse⟩ :=
    scratch_locals_used_safely hbefore hplan hq hs' hafter
  have hempty : s.builder.instrs.toList = [] := rfl
  have hstored : ∀ slot, .stLoc slot ∈ s'.builder.instrs.toList → .stLoc slot ∈ body := by
    intro slot hslot
    rw [hemission.appended, hempty, List.nil_append, List.mem_append] at hslot
    exact hslot.resolve_left (hemission.silent slot)
  exact ⟨q, _, s, s', _, hbefore, hplan, hq, hs', hafter, first, left, own, body, hopen, hemission,
    huse, hstored 1 (by decide +kernel), hstored 2 (by decide +kernel)⟩

end ScratchUse

end Recast
