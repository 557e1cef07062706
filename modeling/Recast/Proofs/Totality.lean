import Recast.Proofs.Steps
import Recast.Proofs.TypedConversions

/-!
# Conversions are total

Where nothing runs out, the steps of a typed plan can all be taken: locals and texts are there,
and typed code never underflows.  So a conversion fails only if its plan ends in an error.

* `Session.HasRoom` : a number of locals and texts may still be asked for;
* `Session.performAll_of_check` : **progress**: a session with room takes every step whose code
  the checker accepts;
* `conversion_total` : **the conversion matrix is total** but for numbers that are wanted as
  something that can be called.
-/

namespace Recast

namespace Session

variable {s s' : Session} {n m : Nat} {r : Rep}

/-! ### Room -/

/-- A number of locals and texts may still be asked for. -/
structure HasRoom (s : Session) (n : Nat) : Prop where
  /-- The quota on locals allows for them. -/
  localQuota : ∀ q, s.localQuota = some q → n ≤ q
  /-- The quota on texts allows for them. -/
  textQuota : ∀ q, s.textQuota = some q → n ≤ q
  /-- The code has slots for them. -/
  locals : s.builder.locals.size + n ≤ Builder.maxLocals

theorem hasRoom_of_unlimited (hlocals : s.localQuota = none) (htexts : s.textQuota = none)
    (h : s.builder.locals.size + n ≤ Builder.maxLocals) : s.HasRoom n where
  localQuota q hq := by
    rw [hlocals] at hq
    cases hq
  textQuota q hq := by
    rw [htexts] at hq
    cases hq
  locals := h

theorem HasRoom.mono (h : s.HasRoom n) (hm : m ≤ n) : s.HasRoom m where
  localQuota q hq := Nat.le_trans hm (h.localQuota q hq)
  textQuota q hq := Nat.le_trans hm (h.textQuota q hq)
  locals := Nat.le_trans (Nat.add_le_add_left hm _) h.locals

theorem HasRoom.congr (h : s.HasRoom n) (hl : s'.localQuota = s.localQuota)
    (ht : s'.textQuota = s.textQuota) (hb : s'.builder.locals = s.builder.locals) :
    s'.HasRoom n := by
  refine ⟨?_, ?_, ?_⟩
  · rw [hl]
    exact h.localQuota
  · rw [ht]
    exact h.textQuota
  · rw [hb]
    exact h.locals

theorem HasRoom.declareLocal (h : s.HasRoom (n + 1)) (r : Rep) :
    ∃ slot s', s.declareLocal r = .ok (slot, s') ∧ s'.HasRoom n := by
  have hquota : s.localQuota ≠ some 0 := fun hq => absurd (h.localQuota 0 hq) (by omega)
  have hlocals := h.locals
  have hsize : s.builder.locals.size < Builder.maxLocals := by omega
  unfold Session.declareLocal Builder.declare?
  rw [if_neg hquota, if_pos hsize]
  refine ⟨_, _, rfl, ?_, ?_, ?_⟩
  · intro q hq
    obtain ⟨q', hq', rfl⟩ := Option.map_eq_some_iff.1 hq
    have := h.localQuota q' hq'
    omega
  · intro q hq
    have := h.textQuota q hq
    omega
  · simp only [Array.size_push]
    omega

theorem HasRoom.acquire (h : s.HasRoom (n + 1)) (r : Rep) :
    ∃ slot s', Session.acquire r s = .ok slot s' ∧ s'.HasRoom n := by
  cases hacquire : Session.acquire r s with
  | ok slot s' =>
    obtain ⟨t, hs', ht⟩ := exists_of_acquire hacquire
    have hroom : t.HasRoom n := by
      rcases ht with rfl | hdeclare
      · exact h.mono (Nat.le_succ n)
      · obtain ⟨slot', s₀, hslot, hroom⟩ := h.declareLocal r
        rw [hdeclare] at hslot
        cases hslot
        exact hroom
    exact ⟨slot, s', rfl, hroom.congr (by rw [hs']) (by rw [hs']) (by rw [hs'])⟩
  | error e s' =>
    obtain ⟨-, c, -, hrefused⟩ := acquire_eq_error hacquire
    obtain ⟨slot', s₀, hslot, -⟩ := h.declareLocal r
    rw [hrefused] at hslot
    cases hslot

theorem HasRoom.internText (h : s.HasRoom (n + 1)) (x : String) :
    ∃ j s', s.internText x = .ok (j, s') ∧ s'.HasRoom n := by
  have hquota : s.textQuota ≠ some 0 := fun hq => absurd (h.textQuota 0 hq) (by omega)
  have hlocals : (s.builder.intern x).2.locals = s.builder.locals := by
    unfold Builder.intern
    split <;> rfl
  unfold Session.internText
  rw [if_neg hquota]
  refine ⟨_, _, rfl, ?_, ?_, ?_⟩
  · intro q hq
    have := h.localQuota q hq
    omega
  · intro q hq
    obtain ⟨q', hq', rfl⟩ := Option.map_eq_some_iff.1 hq
    have := h.textQuota q' hq'
    omega
  · have := h.locals
    change (s.builder.intern x).2.locals.size + n ≤ Builder.maxLocals
    rw [hlocals]
    omega

/-! ### Progress -/

section Progress

variable {C : Catalog} {T : ClassTable} {N : Numbering} {locals : Array Rep} {f f' : Flow}
  {t : Step} {ts : List Step} {i : Instr} {b : Builder}

theorem emit_of_step (hstep : f.step ⟨C, T, locals⟩ i = some f') (hf : f.Tracks s.builder)
    (hs : s.Sound) (hroom : s.HasRoom n) :
    ∃ s', emit C i s = .ok () s' ∧ f'.Tracks s'.builder ∧
      s'.builder.labels = s.builder.labels ∧ s'.Sound ∧ s'.HasRoom n := by
  obtain ⟨b, hb, htracks⟩ := Flow.emit_of_step hstep hf
  change s.builder.emit C i = .ok b at hb
  have hlocals := locals_emit hb
  refine ⟨{ s with builder := b }, ?_, htracks, (instrs_emit hb).2, fun p hp => ?_, ?_⟩
  · unfold emit
    rw [hb]
  · rw [hlocals]
    exact hs p hp
  · exact hroom.congr rfl rfl hlocals

theorem tracks_of_eq (hf : f.Tracks s.builder) (hd : s'.builder.depth = s.builder.depth)
    (hb : s'.builder.branchDepths = s.builder.branchDepths) : f.Tracks s'.builder := by
  refine ⟨fun σ hσ => hd.trans (hf.depth σ hσ), fun l hl => ?_⟩
  rw [Builder.branchDepth?, hb]
  exact hf.joins l hl

theorem acquire_of_hasRoom (hf : f.Tracks s.builder) (hs : s.Sound) (hroom : s.HasRoom (n + 1))
    (r : Rep) :
    ∃ slot s', acquire r s = .ok slot s' ∧ s'.builder.locals[slot]? = some r ∧
      f.Tracks s'.builder ∧ s'.builder.labels = s.builder.labels ∧ s'.Sound ∧ s'.HasRoom n := by
  obtain ⟨slot, s', hacquire, hroom⟩ := hroom.acquire r
  have hb := builder_acquire hacquire
  have hs' := hs.acquire hacquire
  refine ⟨slot, s', hacquire, hs'.local_of_lookup (lookup_acquire hacquire), ?_, ?_, hs', hroom⟩
  · exact tracks_of_eq hf (by rw [hb]) (by rw [hb])
  · rw [hb]

/-- **Progress**: a session with room takes a step whose instruction the checker accepts, and is
where the checker is again.  The labels have to be numbered as the session does only for steps
that branch. -/
theorem perform_of_check (hslots : ∀ r, t.scratch? = some r → locals[N.slot r]? = some r)
    (hcheck : Flow.check ⟨C, T, locals⟩ (N.instr? t).toList f = some f')
    (hf : f.Tracks s.builder) (hlabels : t.branches = true → N.labels = s.builder.labels)
    (hs : s.Sound) (hroom : s.HasRoom (n + 1)) :
    ∃ s', perform C t s = .ok () s' ∧ f'.Tracks s'.builder ∧
      (N.labels = s.builder.labels → (N.after t).labels = s'.builder.labels) ∧ s'.Sound ∧
      s'.HasRoom n := by
  have hroom' := hroom.mono (Nat.le_succ n)
  -- the check of the one instruction
  have single : ∀ {i : Instr}, N.instr? t = some i → f.step ⟨C, T, locals⟩ i = some f' := by
    intro i hi
    rw [hi, Option.toList_some, Flow.check_cons] at hcheck
    obtain ⟨f₁, hstep, hnil⟩ := Option.bind_eq_some_iff.1 hcheck
    cases hnil
    exact hstep
  cases t with
  | emit i =>
    obtain ⟨s', hemit, htracks, hl, hs', hroom'⟩ := emit_of_step (single rfl) hf hs hroom'
    exact ⟨s', hemit, htracks, fun h => h.trans hl.symm, hs', hroom'⟩
  | text x =>
    obtain ⟨j, s₁, hintern, hroom₁⟩ := hroom.internText x
    obtain ⟨-, -, hb⟩ := internText_eq_ok hintern
    have hintern := attempt_eq_ok.2 hintern
    have hs₁ : s₁.Sound := ((invariant_sound C).intern x).of_eq_ok hs hintern
    -- the type of a text does not depend on its index
    have hstep : f.step ⟨C, T, locals⟩ (.ldStr j) = some f' := by
      rw [← single rfl]
      unfold Flow.step
      cases f.stack <;> rfl
    obtain ⟨s', hemit, htracks, hl, hs', hroom'⟩ :=
      emit_of_step hstep (tracks_of_eq hf (by rw [hb]) (by rw [hb])) hs₁ hroom₁
    refine ⟨s', bind_eq_ok.2 ⟨j, s₁, hintern, hemit⟩, htracks, fun h => ?_, hs', hroom'⟩
    rw [hl, hb]
    exact h
  | invoke x returnsValue =>
    have hstep := single rfl
    unfold Flow.step at hstep
    cases hσ : f.stack <;> simp [hσ, Instr.retype] at hstep
  | reserve r =>
    cases hcheck
    obtain ⟨slot, s', hacquire, -, htracks, hl, hs', hroom⟩ := acquire_of_hasRoom hf hs hroom r
    exact ⟨s', bind_eq_ok.2 ⟨slot, s', hacquire, rfl⟩, htracks, fun h => h.trans hl.symm, hs',
      hroom⟩
  | store r =>
    obtain ⟨slot, s₁, hacquire, hslot, hf₁, hl₁, hs₁, hroom₁⟩ :=
      acquire_of_hasRoom hf hs hroom r
    have hstep : f.step ⟨C, T, s₁.builder.locals⟩ (.stLoc slot) = some f' := by
      rw [← single rfl]
      unfold Flow.step
      cases f.stack with
      | none => rfl
      | some σ => cases σ <;> simp only [Instr.retype, hslots r rfl, hslot]
    obtain ⟨s', hemit, htracks, hl, hs', hroom'⟩ := emit_of_step hstep hf₁ hs₁ hroom₁
    exact ⟨s', bind_eq_ok.2 ⟨slot, s₁, hacquire, hemit⟩, htracks,
      fun h => h.trans (hl.trans hl₁).symm, hs', hroom'⟩
  | address r =>
    obtain ⟨slot, s₁, hacquire, hslot, hf₁, hl₁, hs₁, hroom₁⟩ :=
      acquire_of_hasRoom hf hs hroom r
    have hstep : f.step ⟨C, T, s₁.builder.locals⟩ (.ldLocA slot) = some f' := by
      rw [← single rfl]
      unfold Flow.step
      cases f.stack <;> simp only [Instr.retype, hslots r rfl, hslot]
    obtain ⟨s', hemit, htracks, hl, hs', hroom'⟩ := emit_of_step hstep hf₁ hs₁ hroom₁
    exact ⟨s', bind_eq_ok.2 ⟨slot, s₁, hacquire, hemit⟩, htracks,
      fun h => h.trans (hl.trans hl₁).symm, hs', hroom'⟩
  | fork =>
    cases hcheck
    refine ⟨_, rfl, tracks_of_eq hf rfl rfl, fun h => ?_, hs, hroom'.congr rfl rfl rfl⟩
    rw [Numbering.after, h]
  | brAbsent | brEnd | markAbsent | markEnd =>
    have hstep := single rfl
    rw [hlabels rfl] at hstep
    obtain ⟨s', hemit, htracks, hl, hs', hroom'⟩ := emit_of_step hstep hf hs hroom'
    exact ⟨s', bind_eq_ok.2 ⟨s, s, rfl, hemit⟩, htracks, fun h => h.trans hl.symm, hs', hroom'⟩

theorem performAll_of_check {f f' : Flow} {N : Numbering}
    (hslots : ∀ t ∈ ts, ∀ r, t.scratch? = some r → locals[N.slot r]? = some r)
    (hcheck : Flow.check ⟨C, T, locals⟩ (N.code ts) f = some f') (hf : f.Tracks s.builder)
    (hlabels : (∀ t ∈ ts, t.branches = false) ∨ N.labels = s.builder.labels) (hs : s.Sound)
    (hroom : s.HasRoom ts.length) :
    ∃ s', performAll C ts s = .ok () s' ∧ f'.Tracks s'.builder := by
  induction ts generalizing s f N with
  | nil =>
    cases hcheck
    exact ⟨s, rfl, hf⟩
  | cons t ts ih =>
    rw [Numbering.code_cons, Flow.check_append] at hcheck
    obtain ⟨f₁, hfirst, hrest⟩ := Option.bind_eq_some_iff.1 hcheck
    have hbranches : t.branches = true → N.labels = s.builder.labels := fun ht =>
      hlabels.resolve_left fun h => by simp [h t List.mem_cons_self] at ht
    obtain ⟨s₁, hperform, hf₁, hlabels₁, hs₁, hroom₁⟩ :=
      perform_of_check (hslots t List.mem_cons_self) hfirst hf hbranches hs hroom
    obtain ⟨s', hall, htracks⟩ := ih (N := N.after t)
      (fun t' ht' => by simpa using hslots t' (List.mem_cons_of_mem _ ht')) hrest hf₁
      (hlabels.imp (fun h t' ht' => h t' (List.mem_cons_of_mem _ ht')) hlabels₁) hs₁ hroom₁
    exact ⟨s', bind_eq_ok.2 ⟨(), s₁, hperform, hall⟩, htracks⟩

/-- A numbering of the scratch locals that steps name, in the order in which they name them. -/
def firstNumbering (ts : List Step) (labels : Nat) : Numbering :=
  ⟨(ts.filterMap Step.scratch?).idxOf, fun _ => 0, labels⟩

theorem slot_firstNumbering {t : Step} (ht : t ∈ ts) (hr : t.scratch? = some r) (labels : Nat) :
    (ts.filterMap Step.scratch?).toArray[(firstNumbering ts labels).slot r]? = some r := by
  have hmem : r ∈ ts.filterMap Step.scratch? := List.mem_filterMap.2 ⟨t, ht, hr⟩
  rw [List.getElem?_toArray]
  exact List.getElem?_eq_some_iff.2 ⟨List.idxOf_lt_length_of_mem hmem, List.getElem_idxOf _⟩

end Progress

/-! ### Typed plans -/

/-- Branches lead to labels that have been defined. -/
def BranchesDefined (s : Session) : Prop :=
  ∀ l, s.builder.branchDepth? l ≠ none → l.index < s.builder.labels

/-- A session is ready to carry out a plan of a number of steps on a value: the value is there,
nothing runs out, and for a nullable, which is converted with branches, other branches stay with
labels of their own. -/
structure Ready (s : Session) (source : Rep) (steps : Nat) : Prop where
  /-- There is an operand for the value. -/
  operand : source ≠ .void → 0 < s.builder.depth
  /-- Labels to come have not been branched to. -/
  labels : (∃ p, source = .nullable p) → s.BranchesDefined
  /-- Nothing runs out. -/
  room : s.HasRoom steps

theorem exists_branchDepth?_lt (s : Session) :
    ∃ n, ∀ l, s.builder.branchDepth? l ≠ none → l.index < n := by
  unfold Builder.branchDepth?
  induction s.builder.branchDepths with
  | nil => exact ⟨0, fun l hl => absurd rfl hl⟩
  | cons p ps ih =>
    obtain ⟨n, hn⟩ := ih
    refine ⟨max n (p.1.index + 1), fun l hl => ?_⟩
    by_cases h : l = p.1
    · rw [h]
      exact Nat.lt_of_lt_of_le (Nat.lt_succ_self _) (Nat.le_max_right _ _)
    · rw [lookup_cons_ne h] at hl
      exact Nat.lt_of_lt_of_le (hn l hl) (Nat.le_max_left _ _)

/-- A typed plan can be carried out on operands of the depth of the session. -/
theorem performAll_of_typed {S : Scope} {ts : List Step} {σ σ' : List Operand}
    (htyped : S.Typed ts σ σ') (hdepth : s.builder.depth = σ.length)
    (hlabels : (∀ t ∈ ts, t.branches = false) ∨ s.BranchesDefined) (hs : s.Sound)
    (hroom : s.HasRoom ts.length) :
    ∃ s', performAll S.catalog ts s = .ok () s' ∧ s'.builder.depth = σ'.length := by
  -- where there are no branches, new labels may be numbered from anywhere
  obtain ⟨n, hlabels, hn⟩ : ∃ n, ((∀ t ∈ ts, t.branches = false) ∨ n = s.builder.labels) ∧
      ∀ l, s.builder.branchDepth? l ≠ none → l.index < n := by
    rcases hlabels with h | h
    · obtain ⟨n, hn⟩ := s.exists_branchDepth?_lt
      exact ⟨n, .inl h, hn⟩
    · exact ⟨_, .inr rfl, h⟩
  let N := firstNumbering ts n
  -- labels branched to before are out of reach: they count as placed
  let f : Flow := ⟨some σ, [], s.builder.branchDepths.map Prod.fst⟩
  have hslots : ∀ t ∈ ts, ∀ r, t.scratch? = some r →
      (ts.filterMap Step.scratch?).toArray[N.slot r]? = some r :=
    fun t ht r hr => slot_firstNumbering ht hr _
  have hmem : ∀ l : Label, l ∉ f.placed ↔ s.builder.branchDepth? l = none := by
    intro l
    constructor
    · intro hl
      refine List.lookup_eq_none_iff.2 fun p hp => bne_iff_ne.2 fun heq => hl ?_
      exact List.mem_map.2 ⟨p, hp, heq.symm⟩
    · intro hl hplaced
      obtain ⟨p, hp, rfl⟩ := List.mem_map.1 hplaced
      exact absurd (List.lookup_eq_none_iff.1 hl p hp) (by simp)
  have htracks : f.Tracks s.builder := by
    refine ⟨fun σ₀ hσ₀ => ?_, fun l hl => (hmem l).1 hl⟩
    cases hσ₀
    exact hdepth
  have hfresh : f.Fresh N.labels := by
    refine fun l hl => ⟨rfl, (hmem l).2 ?_⟩
    by_contra h
    exact absurd (hn l h) (Nat.not_lt.2 hl)
  obtain ⟨f', hcheck, hf', -⟩ := htyped N _ f hslots rfl hfresh
  obtain ⟨s', hall, htracks'⟩ := performAll_of_check hslots hcheck htracks hlabels hs hroom
  exact ⟨s', hall, htracks'.depth σ' hf'⟩

/-- A typed plan can be carried out in a session that has the operands it takes.  They are
replaced by those that it leaves. -/
theorem performAll_leaves {S : Scope} {α : Type} {p : Script α} {top : List Operand}
    {Q : α → List Operand → Prop} (h : S.Yields p top Q)
    (hdepth : top.length ≤ s.builder.depth)
    (hlabels : (∀ t ∈ p.steps, t.branches = false) ∨ s.BranchesDefined) (hs : s.Sound)
    (hroom : s.HasRoom p.steps.length) :
    ∃ s' top', performAll S.catalog p.steps s = .ok () s' ∧
      s'.builder.depth + top.length = s.builder.depth + top'.length ∧
      ∀ a, p.result = .ok a → Q a top' := by
  obtain ⟨top', htyped, hQ⟩ := h
  -- whatever the operands below are, there are as many as the session has
  let below := List.replicate (s.builder.depth - top.length) Operand.null
  have hbelow : (top ++ below).length = s.builder.depth := by
    rw [List.length_append, List.length_replicate, Nat.add_sub_cancel' hdepth]
  obtain ⟨s', hall, hdepth'⟩ := performAll_of_typed (htyped below) hbelow.symm hlabels hs hroom
  refine ⟨s', top', hall, ?_, hQ⟩
  rw [hdepth', List.length_append, List.length_replicate]
  omega

theorem performAll_of_yields {S : Scope} {α : Type} {p : Script α} {top : List Operand}
    {Q : α → List Operand → Prop} (h : S.Yields p top Q)
    (hdepth : top.length ≤ s.builder.depth)
    (hlabels : (∀ t ∈ p.steps, t.branches = false) ∨ s.BranchesDefined) (hs : s.Sound)
    (hroom : s.HasRoom p.steps.length) :
    ∃ s', performAll S.catalog p.steps s = .ok () s' := by
  obtain ⟨s', _, hall, -⟩ := performAll_leaves h hdepth hlabels hs hroom
  exact ⟨s', hall⟩

end Session

/-! ### Conversions -/

open Scope

theorem Session.performAll_convert {T : ClassTable} {k : Option ClassId} {s : Session}
    {source target : Rep} {hint : Hint} (hs : s.Sound)
    (hready : s.Ready source ((standard T k).convert source hint target).steps.length) :
    ∃ s', performAll .standard ((standard T k).convert source hint target).steps s =
      .ok () s' := by
  obtain ⟨top, htop, hdepth⟩ : ∃ top, Holds T source top ∧ top.length ≤ s.builder.depth := by
    by_cases hvoid : source = .void
    · subst hvoid
      exact ⟨[], .void, Nat.zero_le _⟩
    · exact ⟨[.value source], holds_value hvoid, hready.operand hvoid⟩
  exact performAll_of_yields (yields_reshape (k := k) source hint target top htop) hdepth
    (isStraight_reshape_or hready.labels) hs hready.room

/-- **The conversion matrix is total.**  A conversion fails exactly if something that can be
called is wanted and the effective source is a number, and the error names the effective source.
This holds of the plan, and in every session that is ready for the plan also of carrying it
out. -/
theorem conversion_total (T : ClassTable) (k : Option ClassId) (source : Rep) (hint : Hint)
    (target : Rep) :
    (∀ e, ((standard T k).convert source hint target).result = .error e ↔
      target = .callable ∧ (effectiveSource source hint).isNumeric = true ∧
        e = .notCallable (effectiveSource source hint)) ∧
    ∀ o s, Session.Reachable (standard T k) o s →
      s.Ready source ((standard T k).convert source hint target).steps.length →
      ∀ e, (∃ s', Session.run .standard ((standard T k).convert source hint target) s =
          .error e s') ↔
        target = .callable ∧ (effectiveSource source hint).isNumeric = true ∧
          e = .failed (.notCallable (effectiveSource source hint)) := by
  have hplan : ∀ e, ((standard T k).convert source hint target).result = .error e ↔
      target = .callable ∧ (effectiveSource source hint).isNumeric = true ∧
        e = .notCallable (effectiveSource source hint) := by
    intro e
    rw [result_convert, outcome]
    split_ifs with h
    · simp [h.1, h.2, eq_comm]
    · simp only [false_iff]
      exact fun hc => h ⟨hc.1, hc.2.1⟩
  refine ⟨hplan, fun o s hs hready e => ?_⟩
  obtain ⟨s', hsteps⟩ := Session.performAll_convert hs.sound hready
  constructor
  · rintro ⟨s'', hrun⟩
    rcases Session.run_eq_error.1 hrun with hrefused | ⟨c, hc, rfl, -⟩
    · rw [hsteps] at hrefused
      cases hrefused
    · obtain ⟨ht, hnum, rfl⟩ := (hplan c).1 hc
      exact ⟨ht, hnum, rfl⟩
  · rintro ⟨ht, hnum, rfl⟩
    exact ⟨s', Session.run_eq_error.2 (.inr ⟨_, (hplan _).2 ⟨ht, hnum, rfl⟩, rfl, hsteps⟩)⟩

/-- Behind an alias a hint makes an integer of what could have been called. -/
theorem conversion_total_alias : ∃ s : Session,
    Session.Reachable (standard .new none) .standard s ∧
    s.Ready .alias ((standard .new none).convert .alias .long .callable).steps.length ∧
    ∃ s', Session.run .standard ((standard .new none).convert .alias .long .callable) s =
      .error (.failed (.notCallable .int64)) s' := by
  let S := standard .new none
  let s := Session.endOf ((Request.emit .ldNull).answer S .standard) (.new none none)
  have hs : Session.Reachable S .standard s := .request _ (.new none none)
  have hready : s.Ready .alias (S.convert .alias .long .callable).steps.length := by
    refine ⟨fun _ => by decide, fun _ l hl => absurd rfl hl, ?_, ?_, by decide +kernel⟩
    · rintro q ⟨⟩
    · rintro q ⟨⟩
  have heff : effectiveSource .alias .long = .int64 := by decide
  refine ⟨s, hs, hready, ?_⟩
  rw [((conversion_total .new none .alias .long .callable).2 .standard s hs hready _), heff]
  exact ⟨rfl, rfl, rfl⟩

end Recast
