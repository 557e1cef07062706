import Recast.Proofs.Commands
import Recast.Proofs.History

/-!
# The pools of a builder

A builder belongs to a session, and is told what to do by the requests that are answered there, by
conversions as well as directly.  All of that is commands, so the builder of a session is as
consistent as one that has been given commands alone.

Code refers to a text by its index.  The text that is wanted is known while the plan is carried out,
and the index is chosen then; it is still that of the text when the code is complete, whatever has
been done to the session in between.

* `Session.Onward` : requests lead from one session to another;
* `Session.Onward.exists_commands` : **what they do to the builder is done by commands**;
* `Mention` : what an instruction refers to by an index;
* `Session.mentions_performAll` : **code refers to the texts that its plan names**;
* `builder_pools_consistent` : the pools of a builder are consistent over any run.
-/

namespace Recast

open Builder

namespace Session

/-- Requests lead from one session to another, in any scopes over a catalog and under any options,
whatever becomes of them. -/
inductive Onward (C : Catalog) (s : Session) : Session → Prop
  /-- Nothing is requested. -/
  | refl : Onward C s s
  /-- One more request is answered. -/
  | request {t : Session} {S : Scope} (o : Options) (q : Request) (h : Onward C s t)
      (hS : S.catalog = C) : Onward C s (endOf (q.answer S o) t)

/-- The builder has been given commands. -/
def Commanded (C : Catalog) (b : Builder) (s : Session) : Prop := ∃ cs, s.builder = b.after C cs

section Commanded

variable {C : Catalog} {b : Builder} {s s' : Session} {r : Rep} {n : Nat}

theorem obey_internText {t : String} (h : s.internText t = .ok (n, s')) :
    s.builder.obey C (.intern t) = (.index n, s'.builder) := by
  unfold internText at h
  split_ifs at h
  cases h
  rfl

theorem obey_declareLocal (h : s.declareLocal r = .ok (n, s')) :
    s.builder.obey C (.declare r) = (.slot n, s'.builder) := by
  unfold declareLocal at h
  split_ifs at h
  rw [Builder.obey]
  cases hb : s.builder.declare? r with
  | none =>
    rw [hb] at h
    cases h
  | some p =>
    rw [hb] at h
    cases h
    rfl

theorem Commanded.obey (h : Commanded C b s) (c : Command)
    (hs' : s'.builder = (s.builder.obey C c).2) : Commanded C b s' := by
  obtain ⟨cs, hcs⟩ := h
  refine ⟨cs ++ [c], ?_⟩
  rw [hs', after_append, ← hcs]
  rfl

theorem Commanded.declareLocal (h : Commanded C b s) (hs' : s.declareLocal r = .ok (n, s')) :
    Commanded C b s' :=
  h.obey (.declare r) (by rw [obey_declareLocal hs'])

/-- **What a plan does to the builder is done by commands.** -/
theorem steady_commanded (C : Catalog) (b : Builder) : Steady C (Commanded C b) where
  emit i := by
    intro s hs
    refine hs.obey (.emit i) ?_
    simp only [endOf, Session.emit, Builder.obey]
    cases s.builder.emit C i <;> rfl
  intern t := .attempt fun s j s' hs h => hs.obey (.intern t) (by rw [obey_internText h])
  acquire r := .acquire fun s n s' hs h => by
    obtain ⟨t, hs', ht⟩ := exists_of_acquire h
    have hb : s'.builder = t.builder := by rw [hs']
    rw [Commanded, hb]
    rcases ht with rfl | hdeclare
    · exact hs
    · exact hs.declareLocal hdeclare
  defineLabel := fun s hs => hs.obey .label rfl

/-- **What requests do to the builder is done by commands.** -/
theorem Onward.exists_commands (h : Onward C s s') : Commanded C s.builder s' := by
  induction h with
  | refl => exact ⟨[], rfl⟩
  | @request t S o q _ hS ih =>
    subst hS
    exact (steady_commanded S.catalog s.builder).answer
      (fun r => .attempt fun _ _ _ hs hr => hs.declareLocal hr) (fun _ hs => hs) q t ih

theorem Onward.grows (h : Onward C s s') : s.builder.Grows s'.builder := by
  obtain ⟨cs, hcs⟩ := h.exists_commands
  rw [hcs]
  exact grows_after _ cs

end Commanded

end Session

/-! ### What code refers to -/

/-- What an instruction refers to by the index of a text, if there is a text with the index. -/
inductive Mention where
  /-- A text is pushed. -/
  | text (s : Option String)
  /-- A routine is called by name. -/
  | routine (name : Option String) (returnsValue : Bool)
  deriving DecidableEq

/-- What an instruction refers to among some texts. -/
def Instr.mention? (texts : Array String) : Instr → Option Mention
  | .ldStr j => some (.text texts[j]?)
  | .invoke j returnsValue => some (.routine texts[j]? returnsValue)
  | _ => none

/-- What a step refers to.  It names its text, unless it emits an instruction that is given. -/
def Step.mention? (texts : Array String) : Step → Option Mention
  | .emit i => i.mention? texts
  | .text s => some (.text (some s))
  | .invoke s returnsValue => some (.routine (some s) returnsValue)
  | _ => none

theorem Instr.isNumbered_of_mention? {texts : Array String} {i : Instr}
    (h : i.mention? texts ≠ none) : i.isNumbered = true := by
  cases i <;> first | rfl | exact absurd rfl h

namespace Session

variable {C : Catalog} {b : Builder} {s s' : Session} {t : Step} {ts : List Step} {u : Unit}

/-- What a step emits refers to what the step does, whatever is interned later. -/
theorem mention?_instr? (h : perform C t s = .ok u s') (hgrows : s'.builder.Grows b) (n : Nat) :
    ((s'.numbering n).instr? t).bind (Instr.mention? b.texts) = t.mention? b.texts := by
  have htext : ∀ x, t.interned? = some x → b.texts[(s'.numbering n).text x]? = some x := by
    intro x hx
    obtain ⟨j, hj⟩ := (numbers_of_perform h).2 x hx
    rw [numbering_text hj]
    exact hgrows.getElem?_texts (getElem?_of_idxOf? hj)
  cases t with
  | text x => simp [Numbering.instr?, Instr.mention?, Step.mention?, htext x rfl]
  | invoke x returnsValue => simp [Numbering.instr?, Instr.mention?, Step.mention?, htext x rfl]
  | _ => rfl

/-- **Code refers to what its plan does**: steps append the code of those that are taken, and each
index in it is that of the text that is named. -/
theorem mentions_performAll (C : Catalog) (ts : List Step) (s : Session) :
    ∃ done code, done <+: ts ∧ (∀ s', performAll C ts s = .ok () s' → done = ts) ∧
      (endOf (performAll C ts) s).builder.instrs.toList = s.builder.instrs.toList ++ code ∧
      ∀ b, (endOf (performAll C ts) s).builder.Grows b →
        code.filterMap (Instr.mention? b.texts) = done.filterMap (Step.mention? b.texts) := by
  induction ts generalizing s with
  | nil => exact ⟨[], [], List.prefix_rfl, fun _ _ => rfl, (List.append_nil _).symm, fun _ _ => rfl⟩
  | cons t ts ih =>
    rw [performAll]
    cases h : perform C t s with
    | error e s₀ =>
      rw [endOf_bind_of_error h]
      refine ⟨[], [], List.nil_prefix, fun s' hok => ?_, ?_, fun _ _ => rfl⟩
      · obtain ⟨_, _, hfirst, -⟩ := bind_eq_ok.1 hok
        rw [h] at hfirst
        cases hfirst
      · rw [(perform_eq_error h).2, List.append_nil]
    | ok u s₀ =>
      rw [endOf_bind_of_ok h]
      obtain ⟨done, code, hdone, hall, hcode, hmentions⟩ := ih s₀
      have hfirst := (perform_eq_ok h).2.2 s₀ (.refl s₀)
      refine ⟨t :: done, ((s₀.numbering s.builder.labels).instr? t).toList ++ code,
        (List.prefix_cons_inj t).2 hdone, fun s' hok => ?_, ?_, fun b hb => ?_⟩
      · obtain ⟨_, _, hok₀, hrest⟩ := bind_eq_ok.1 hok
        rw [h] at hok₀
        cases hok₀
        rw [hall s' hrest]
      · rw [hcode, hfirst, List.append_assoc]
      · have hgrows : s₀.builder.Grows (endOf (performAll C ts) s₀).builder := by
          obtain ⟨cs, hcs⟩ := (steady_commanded C s₀.builder).performAll ts s₀ ⟨[], rfl⟩
          rw [hcs]
          exact grows_after _ cs
        have hmention := mention?_instr? h (hgrows.trans hb) s.builder.labels
        rw [List.filterMap_append, hmentions b hb, List.filterMap_cons, ← hmention]
        cases (s₀.numbering s.builder.labels).instr? t with
        | none => rfl
        | some i => cases hi : i.mention? b.texts <;> simp [hi]

end Session

/-! ### Direct requests -/

/-- The request for a command. -/
def Command.request : Command → Request
  | emit i => .emit i
  | intern t => .intern t
  | declare r => .declare r 1
  | label => .label

/-- The reply to the request, if it is not refused. -/
def Command.Result.reply? : Command.Result → Option Reply
  | done => some .done
  | index j => some (.index j)
  | slot n => some (.index n)
  | label l => some (.label l)
  | refused _ | full => none

namespace Session

/-- A request for a command gives it to the builder, unless a quota is used up. -/
theorem answer_request {S : Scope} {o : Options} {c : Command} {s s' : Session} {reply : Reply}
    (h : c.request.answer S o s = .ok reply s') :
    (s.builder.obey S.catalog c).1.reply? = some reply ∧
      s'.builder = (s.builder.obey S.catalog c).2 := by
  cases c with
  | emit i =>
    obtain ⟨_, t, hemit, hreply⟩ := bind_eq_ok.1 h
    cases hreply
    obtain ⟨b, hb, rfl⟩ := emit_eq_ok hemit
    rw [Builder.obey, hb]
    exact ⟨rfl, rfl⟩
  | intern t =>
    obtain ⟨j, hintern, rfl⟩ := map_eq_ok.1 h
    rw [obey_internText (attempt_eq_ok.1 hintern)]
    exact ⟨rfl, rfl⟩
  | declare r =>
    obtain ⟨n, hdeclare, rfl⟩ := map_eq_ok.1 h
    rw [obey_declareLocal (attempt_eq_ok.1 hdeclare)]
    exact ⟨rfl, rfl⟩
  | label =>
    cases h
    exact ⟨rfl, rfl⟩

end Session

open Session

/-- **The pools of a builder are consistent over any run.**  A builder is told to emit, to intern,
to declare locals and to define labels, and an instruction that it refuses is caught:

* whatever it is told, texts, locals, labels and depths fit with what has come of it;
* requests do nothing else to a builder, in any scopes over the catalog and under any options: they
  give it commands, and what is requested directly is one command;
* the code that a plan appends, as far as it is carried out, refers to the texts and routines that
  the plan names, in the same order.  Each index is still that of its text after whatever requests
  come later, and no index is in the code but those, and those that the place of the request emits
  of its own accord. -/
theorem builder_pools_consistent (C : Catalog) :
    (∀ cs, Consistent C cs (empty.log C cs) (empty.after C cs)) ∧
    ((∀ s s', Onward C s s' → ∃ cs, s'.builder = s.builder.after C cs) ∧
      ∀ (S : Scope) o (c : Command) s s' reply, S.catalog = C →
        c.request.answer S o s = .ok reply s' →
        (s.builder.obey C c).1.reply? = some reply ∧ s'.builder = (s.builder.obey C c).2) ∧
    ∀ (S : Scope) o (q : Request) plan s s', S.catalog = C → q.plan? S o = some plan →
      s' = endOf (q.answer S o) s →
      (∃ done code, done <+: plan.steps ∧
        (∀ reply t, q.answer S o s = .ok reply t → done = plan.steps) ∧
        s'.builder.instrs.toList = s.builder.instrs.toList ++ code ∧
        ∀ later, Onward C s' later → code.filterMap (Instr.mention? later.builder.texts) =
          done.filterMap (Step.mention? later.builder.texts)) ∧
      ∀ i texts, .emit i ∈ plan.steps → i.mention? texts ≠ none →
        ∃ first ∈ q.own, .emit i ∈ first.steps := by
  refine ⟨consistent_after C, ⟨fun s s' h => h.exists_commands, ?_⟩, ?_⟩
  · rintro S o c s s' reply rfl h
    exact answer_request h
  · rintro S o q plan s s' rfl hplan rfl
    refine ⟨?_, fun i texts hi hmention => ?_⟩
    · rw [Request.answer_eq_run hplan, endOf_run]
      obtain ⟨done, code, hdone, hall, hcode, hmentions⟩ :=
        mentions_performAll S.catalog plan.steps s
      exact ⟨done, code, hdone, fun reply t h => hall t (run_eq_ok.1 h).2, hcode,
        fun later h => hmentions _ h.grows⟩
    · -- all but what the place emits names its texts
      obtain ⟨first, hfirst, rest, hsteps, hrest⟩ := Request.named_plan? hplan
      rw [hsteps, List.mem_append] at hi
      refine ⟨first, hfirst, hi.resolve_right fun hi => ?_⟩
      have hsymbolic := hrest.1 _ hi
      rw [Step.isSymbolic, Instr.isNumbered_of_mention? hmention] at hsymbolic
      cases hsymbolic

/-- A branch without an operand is refused in the midst of other commands.  A text that is pushed is
still found at its index when a routine has been called later. -/
theorem builder_pools_consistent_text : ∃ (cs : List Command) (s s' later : Session),
    Consistent .standard cs (empty.log .standard cs) (empty.after .standard cs) ∧
    (empty.log .standard cs).map (·.2) =
      [.label ⟨0⟩, .refused (.underflow 1 0), .index 0, .index 1, .index 0, .slot 0, .done, .slot 1,
        .label ⟨1⟩] ∧
    (empty.after .standard cs).texts.toList = ["b", "a"] ∧
    Onward .standard (new none none) s ∧ Onward .standard s' later ∧
    s'.builder.instrs.toList = s.builder.instrs.toList ++ [.ldStr 1] ∧
    later.builder.texts[1]? = some "a" ∧
    ∃ cs, later.builder = s'.builder.after .standard cs := by
  let cs : List Command := [.label, .emit (.brFalse ⟨0⟩), .intern "b", .intern "a", .intern "b",
    .declare .int32, .emit .ldNull, .declare .value, .label]
  let S := Scope.standard .new none
  let q : Request := .convertExpr (.literal (.text "a")) .text
  let s := endOf ((Request.intern "b").answer S .standard) (new none none)
  let s' := endOf (q.answer S .standard) s
  let call : Expr := ⟨.invoke "f" .void, .empty, none, .discard⟩
  let later := endOf ((Request.evaluate call).answer S .standard) s'
  have hs : Onward .standard (new none none) s := .request .standard _ .refl rfl
  have hlater : Onward .standard s' later := .request .standard _ .refl rfl
  obtain ⟨hconsistent, ⟨hcommands, -⟩, hmentions⟩ := builder_pools_consistent .standard
  obtain ⟨⟨done, code, -, hall, hcode, hmention⟩, -⟩ :=
    hmentions S .standard q _ s s' rfl rfl rfl
  have hinstrs : s'.builder.instrs.toList = s.builder.instrs.toList ++ [.ldStr 1] := by
    decide +kernel
  have htext := hmention later hlater
  rw [hall (.rep .text) s' rfl, List.append_cancel_left (hcode.symm.trans hinstrs)] at htext
  have htext' : [Mention.text later.builder.texts[1]?] = [.text (some "a")] := htext
  refine ⟨cs, s, s', later, hconsistent cs, by decide +kernel, ?_, hs, hlater, hinstrs, ?_,
    hcommands s' later hlater⟩
  · rw [(hconsistent cs).texts]
    decide +kernel
  · simpa using htext'

end Recast
