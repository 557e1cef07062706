import Recast.Proofs.AddressFlow
import Recast.Proofs.Congruence
import Recast.Proofs.OperandTypes
import Recast.Proofs.Reachable

/-!
# Tidy plans

A value whose operations take an address is stored in its scratch local and the address is pushed
at once; the next request for the same representation overwrites the slot.  So the address has to
be gone by then, also where a plan breaks off.

* `Tidy` : the code of some steps is guarded, if the scratch locals are not the user's;
* `Orderly` : where a step cannot be taken, those taken before are tidy;
* `Orderly.addressed` : nothing can go wrong while the address of a scratch local is on the stack;
* `Scope.congruence_orderly` : **over the standard run-time all constructions of plans are
  orderly**.
-/

namespace Recast

open Session

/-! ### Steps that take no address -/

/-- A step pushes the address of no slot but the user's. -/
def Step.Harmless (users : List Nat) : Step → Prop
  | .emit i => i.Harmless users
  | .address _ => False
  | _ => True

/-- The code of some steps is guarded, if the slots that stand for what they take hold of are not
the user's. -/
def Tidy (users : List Nat) (ts : List Step) : Prop :=
  ∀ N : Numbering, (∀ t ∈ ts, ∀ r, t.scratch? = some r → N.slot r ∉ users) →
    Guards users (N.code ts)

/-- Steps are tidy, and where one of them cannot be taken, those taken before are. -/
structure Orderly (users : List Nat) (ts : List Step) : Prop where
  /-- The steps are tidy. -/
  tidy : Tidy users ts
  /-- What has been emitted when a step cannot be taken is the code of tidy steps. -/
  halts : ∀ s e s', performAll .standard ts s = .error e s' → ∃ done rest s₀,
    ts = done ++ rest ∧ performAll .standard done s = .ok () s₀ ∧ s₀.Grows s' ∧
      s'.builder.instrs = s₀.builder.instrs ∧ Tidy users done

section Steps

variable {users : List Nat} {t : Step} {ts us : List Step} {i : Instr} {r : Rep} {op : Op}
  {T : ClassTable} {k : Option ClassId} {s s' : Session} {u : Unit}

theorem Instr.harmless_of_isNumbered (h : i.isNumbered = false) : i.Harmless users := by
  rintro slot rfl
  cases h

theorem Tidy.nil : Tidy users [] := fun _ _ => .of_harmless (by simp)

theorem Tidy.append (hts : Tidy users ts) (hus : Tidy users us) : Tidy users (ts ++ us) := by
  intro N hslots
  rw [Numbering.code_append]
  refine (hts N fun t ht => hslots t (List.mem_append_left _ ht)).append
    (hus (N.afterAll ts) fun t ht r hr => ?_)
  rw [Numbering.slot_afterAll]
  exact hslots t (List.mem_append_right _ ht) r hr

theorem Tidy.of_harmless (h : t.Harmless users) : Tidy users [t] := by
  intro N _
  refine .of_harmless fun i hi => ?_
  rw [Numbering.code_cons, Numbering.code_nil, List.append_nil, Option.mem_toList] at hi
  cases t with
  | emit j =>
    cases hi
    exact h
  | address r => exact h.elim
  | reserve r | fork => cases hi
  | _ =>
    cases hi
    exact fun slot heq => by cases heq

theorem Orderly.nil : Orderly users [] where
  tidy := .nil
  halts s e s' h := by cases h

theorem Orderly.append (hts : Orderly users ts) (hus : Orderly users us) :
    Orderly users (ts ++ us) where
  tidy := hts.tidy.append hus.tidy
  halts s e s' h := by
    rw [performAll_append] at h
    rcases bind_eq_error.1 h with h | ⟨_, s₁, hfirst, h⟩
    · obtain ⟨done, rest, s₀, rfl, hdone⟩ := hts.halts s e s' h
      exact ⟨done, rest ++ us, s₀, List.append_assoc _ _ _, hdone⟩
    · obtain ⟨done, rest, s₀, rfl, hdone, hgrows, hinstrs, htidy⟩ := hus.halts s₁ e s' h
      refine ⟨ts ++ done, rest, s₀, (List.append_assoc _ _ _).symm, ?_, hgrows, hinstrs,
        hts.tidy.append htidy⟩
      rw [performAll_append]
      exact bind_eq_ok.2 ⟨(), s₁, hfirst, hdone⟩

theorem Orderly.of_tidy (h : Tidy users [t]) : Orderly users [t] where
  tidy := h
  halts s e s' herror := by
    rcases bind_eq_error.1 herror with herror | ⟨_, s₁, _, herror⟩
    · obtain ⟨hgrows, hinstrs⟩ := perform_eq_error herror
      exact ⟨[], [t], s, rfl, rfl, hgrows, hinstrs, .nil⟩
    · cases herror

theorem Orderly.of_harmless (h : ∀ t ∈ ts, t.Harmless users) : Orderly users ts := by
  induction ts with
  | nil => exact .nil
  | cons t ts ih =>
    rw [List.forall_mem_cons] at h
    exact (Orderly.of_tidy (.of_harmless h.1)).append (ih h.2)

/-- However far orderly steps are taken, those that are taken are tidy, and their code is what is
emitted. -/
theorem Orderly.taken (h : Orderly users ts) (s : Session) : ∃ done rest s₀, ts = done ++ rest ∧
    performAll .standard done s = .ok () s₀ ∧ s₀.Grows (endOf (performAll .standard ts) s) ∧
    (endOf (performAll .standard ts) s).builder.instrs = s₀.builder.instrs ∧
    Tidy users done := by
  cases hperform : performAll .standard ts s with
  | ok u s' =>
    rw [endOf_eq_ok hperform]
    exact ⟨ts, [], s', (List.append_nil _).symm, hperform, .refl s', rfl, h.tidy⟩
  | error e s' =>
    rw [endOf_eq_error hperform]
    exact h.halts s e s' hperform

/-! ### A value that is addressed -/

theorem emit_of_depth (hi : ∀ l, i ≠ .mark l)
    (h : (i.effect .standard s.builder.depth).1 ≤ s.builder.depth) :
    ∃ s', emit .standard i s = .ok () s' ∧ s'.scratch = s.scratch ∧ s'.builder.depth =
      s.builder.depth - (i.effect .standard s.builder.depth).1 +
        (i.effect .standard s.builder.depth).2 := by
  have hstart : s.builder.startDepth i = s.builder.depth := by
    cases i <;> first | rfl | exact absurd rfl (hi _)
  rw [← hstart] at h
  obtain ⟨b, hb, hdepth, -⟩ := s.builder.emit_of_le h
  refine ⟨{ s with builder := b }, by simp only [emit, hb], rfl, ?_⟩
  rw [hdepth, hstart]

theorem perform_address (h : perform .standard (.address r) s = .ok u s') :
    1 ≤ s'.builder.depth ∧ ∃ slot, s'.scratch.active.lookup r = some slot := by
  obtain ⟨slot, s₀, hslot, hemit⟩ := bind_eq_ok.1 h
  obtain ⟨s₁, hok, hscratch, hdepth⟩ := emit_of_depth (i := .ldLocA slot) (s := s₀)
    (fun _ heq => by cases heq) (Nat.zero_le _)
  rw [hemit] at hok
  cases hok
  rw [hdepth, hscratch]
  exact ⟨Nat.le_add_left _ _, slot, lookup_acquire hslot⟩

/-- Where a value is moved to its scratch local and its address is used at once, the address is
on the stack only while nothing can go wrong. -/
theorem Orderly.addressed (htidy : Tidy users (.store r :: .address r :: ts))
    (hrest : ∀ s, 1 ≤ s.builder.depth → (∃ slot, s.scratch.active.lookup r = some slot) →
      ∃ s', performAll .standard ts s = .ok () s') :
    Orderly users (.store r :: .address r :: ts) where
  tidy := htidy
  halts s e s' h := by
    rcases bind_eq_error.1 h with h | ⟨_, s₁, hstore, h⟩
    · obtain ⟨hgrows, hinstrs⟩ := perform_eq_error h
      exact ⟨[], _, s, rfl, rfl, hgrows, hinstrs, .nil⟩
    · rcases bind_eq_error.1 h with h | ⟨_, s₂, haddress, h⟩
      · obtain ⟨hgrows, hinstrs⟩ := perform_eq_error h
        exact ⟨[.store r], _, s₁, rfl, bind_eq_ok.2 ⟨(), s₁, hstore, rfl⟩, hgrows, hinstrs,
          .of_harmless trivial⟩
      · obtain ⟨hdepth, hslot⟩ := perform_address haddress
        obtain ⟨s₃, hok⟩ := hrest s₂ hdepth hslot
        rw [h] at hok
        cases hok

theorem steps_call_of_address (hop : op.standard.receiver = .address r) :
    (((Scope.standard T k).call op).steps = [.emit (.call op)] ∧
        op.standard.pops = 1) ∨
      (((Scope.standard T k).call op).steps = [.emit .ldContext, .emit (.call op)] ∧
        op.standard.pops = 2) := by
  cases op <;> first
    | (cases hop; done)
    | exact .inl ⟨rfl, rfl⟩
    | exact .inr ⟨rfl, rfl⟩

theorem orderly_callByAddress (hop : op.standard.receiver = .address r) :
    Orderly users ((Scope.standard T k).callByAddress r op).steps := by
  change Orderly users (.store r :: .address r :: ((Scope.standard T k).call op).steps)
  rcases steps_call_of_address (T := T) (k := k) hop with ⟨hsteps, hpops⟩ | ⟨hsteps, hpops⟩
  · rw [hsteps]
    refine .addressed (fun N hslots => ?_) fun s hdepth _ => ?_
    · change Guards users [.stLoc (N.slot r), .ldLocA (N.slot r), .call op]
      refine .of_start (fun v hv => ?_) (by simp)
      refine guarded_addressed (hslots (.store r) List.mem_cons_self r rfl) hv
        ⟨trivial, fun _ => Usage.clean_call hpops (hv.tail _), fun htarget => absurd rfl htarget⟩
    · obtain ⟨s₁, h₁, -⟩ := emit_of_depth (i := .call op) (s := s) (by simp)
        (Nat.le_trans (Nat.le_of_eq hpops) hdepth)
      exact ⟨s₁, bind_eq_ok.2 ⟨(), s₁, h₁, rfl⟩⟩
  · rw [hsteps]
    refine .addressed (fun N hslots => ?_) fun s hdepth _ => ?_
    · change Guards users [.stLoc (N.slot r), .ldLocA (N.slot r), .ldContext, .call op]
      refine .of_start (fun v hv => ?_) (by simp)
      refine guarded_addressed (hslots (.store r) List.mem_cons_self r rfl) hv
        ⟨trivial, fun _ => ⟨trivial, fun _ => Usage.clean_call hpops (hv.tail _),
          fun htarget => absurd rfl htarget⟩, fun htarget => absurd rfl htarget⟩
    · obtain ⟨s₁, h₁, -, hdepth₁⟩ := emit_of_depth (i := .ldContext) (s := s) (by simp)
        (Nat.zero_le _)
      obtain ⟨s₂, h₂, -⟩ := emit_of_depth (i := .call op) (s := s₁) (by simp)
        (Nat.le_trans (Nat.le_of_eq hpops) (by rw [hdepth₁]; exact Nat.succ_le_succ hdepth))
      exact ⟨s₂, bind_eq_ok.2 ⟨(), s₁, h₁, bind_eq_ok.2 ⟨(), s₂, h₂, rfl⟩⟩⟩

theorem perform_address_of_lookup {slot : Nat} (h : s.scratch.active.lookup r = some slot) :
    ∃ s', perform .standard (.address r) s = .ok () s' ∧
      s'.builder.depth = s.builder.depth + 1 := by
  have hacquire : acquire r s = .ok slot s := by
    rw [acquire, ScratchPool.take_of_active h]
  obtain ⟨s₁, h₁, -, hdepth⟩ := emit_of_depth (i := .ldLocA slot) (s := s)
    (fun _ heq => by cases heq) (Nat.zero_le _)
  exact ⟨s₁, bind_eq_ok.2 ⟨slot, s, hacquire, h₁⟩, hdepth⟩

theorem orderly_test (p : Payload) : Orderly users [.store (.nullable p), .address (.nullable p),
    .emit (.hasValue p), .brAbsent, .address (.nullable p), .emit (.getValue p)] := by
  refine .addressed (fun N hslots => ?_) fun s hdepth ⟨slot, hslot⟩ => ?_
  · have hfree := hslots (.store (.nullable p)) List.mem_cons_self _ rfl
    change Guards users [.stLoc (N.slot (.nullable p)), .ldLocA (N.slot (.nullable p)), .hasValue p,
      .brFalse ⟨N.labels - 2⟩, .ldLocA (N.slot (.nullable p)), .getValue p]
    refine .of_start (fun v hv => guarded_addressed hfree hv ?_) (by simp)
    have htail := hv.tail (N.slot (.nullable p) :: v.stored)
    -- only the payload, which is no address, is left by the second address
    have hpayload : Usage.Clean users
        ⟨none :: v.stack.tail, N.slot (.nullable p) :: v.stored⟩ := by
      intro slot hslot
      rcases List.mem_cons.1 hslot with h | h
      · cases h
      · exact htail slot h
    exact ⟨trivial, fun _ => ⟨trivial, fun _ => ⟨.inr List.mem_cons_self, fun _ => ⟨trivial,
      fun _ => hpayload, fun h => absurd rfl h⟩, fun h => absurd rfl h⟩, fun _ => htail⟩,
      fun h => absurd rfl h⟩
  · obtain ⟨s₁, h₁, hscratch₁, hdepth₁⟩ :=
      emit_of_depth (i := .hasValue p) (s := s) (by simp) hdepth
    have hpos : 1 ≤ s₁.builder.depth := by
      rw [hdepth₁]
      exact Nat.le_add_left _ _
    obtain ⟨s₂, h₂, hscratch₂, -⟩ :=
      emit_of_depth (i := .brFalse s₁.forkLabels.1) (s := s₁) (by simp) hpos
    have hslot₂ : s₂.scratch.active.lookup (.nullable p) = some slot := by
      rw [hscratch₂, hscratch₁, hslot]
    obtain ⟨s₃, h₃, hdepth₃⟩ := perform_address_of_lookup hslot₂
    obtain ⟨s₄, h₄, -⟩ := emit_of_depth (i := .getValue p) (s := s₃) (by simp)
      (by rw [hdepth₃]; exact Nat.le_add_left _ _)
    exact ⟨s₄, bind_eq_ok.2 ⟨(), s₁, h₁, bind_eq_ok.2 ⟨(), s₂,
      bind_eq_ok.2 ⟨s₁, s₁, rfl, h₂⟩, bind_eq_ok.2 ⟨(), s₃, h₃, bind_eq_ok.2 ⟨(), s₄, h₄, rfl⟩⟩⟩⟩⟩

end Steps

namespace Scope

variable {T : ClassTable} {k : Option ClassId}

/-- **All constructions of plans are orderly.** -/
theorem congruence_orderly (T : ClassTable) (k : Option ClassId) (users : List Nat) :
    (standard T k).Congruence (standard T k) fun _ p _ => Orderly users p.steps := by
  have emit : ∀ i : Instr, i.actsOnTop = true → Orderly users [.emit i] := fun i hi =>
    .of_tidy (.of_harmless (Instr.harmless_of_isNumbered (Instr.isNumbered_of_actsOnTop hi)))
  have call : ∀ op, Orderly users ((standard T k).call op).steps := by
    intro op
    refine .of_harmless fun t ht => ?_
    obtain ⟨i, rfl, hi⟩ := exists_emit_of_mem_call ht
    exact Instr.harmless_of_isNumbered hi
  refine .ofSteps .nil .append emit (fun s => .of_tidy (.of_harmless trivial))
    call (fun r op hop => orderly_callByAddress hop) fun n p hpayload => ?_
  change Orderly users ([.reserve (.nullable p), .fork] ++ ([.store (.nullable p),
    .address (.nullable p), .emit (.hasValue p), .brAbsent, .address (.nullable p),
    .emit (.getValue p)] ++ ((standard T k).reshapeAt n p.rep .empty .value >>= fun _ => (do
      .step .brEnd
      .step .markAbsent
      (standard T k).apply .valueNull
      .step .markEnd
      return .value : Script Rep)).steps))
  have hrest : Orderly users (do
      .step .brEnd
      .step .markAbsent
      (standard T k).apply .valueNull
      .step .markEnd
      return .value : Script Rep).steps := by
    change Orderly users [.brEnd, .markAbsent, .emit (.call .valueNull), .markEnd]
    exact .of_harmless (by simp [Step.Harmless, Instr.Harmless])
  refine .append (.of_harmless (by simp [Step.Harmless])) ((orderly_test p).append ?_)
  rw [Script.steps_bind]
  refine hpayload.append ?_
  cases ((standard T k).reshapeAt n p.rep .empty .value).result with
  | ok a => exact hrest
  | error e => exact .nil

end Scope

end Recast
