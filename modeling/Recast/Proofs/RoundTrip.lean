import Recast.Proofs.Folding
import Recast.Proofs.History
import Recast.Proofs.Widening

/-!
# Through the dynamic union and back

A value is put into the dynamic union, and later read from it in the representation that it had.
The two conversions are written apart and share no rule: a hint may have the union read by a typed
accessor or by a general operation, and a representation that the union has no family for takes a
detour through a wider one, both ways.

* `Family` : what the union holds, with the operations that put it there and read it;
* `Runtime.KeepsPayloads` : what is known of the run-time;
* `Runtime.Carries` : what the union holds of a value;
* `Scope.computes_toUnion` and `Scope.computes_fromUnion` : **what both conversions compute**;
* `union_round_trip` : **a value that is put into the union is read from it as it was**.
-/

namespace Recast

/-! ### The run-time -/

/-- The families of values that the union holds as they are. -/
inductive Family where
  /-- Truth values. -/
  | bool
  /-- Integers. -/
  | long
  /-- Floats. -/
  | double
  /-- Texts. -/
  | text
  /-- Mutable texts. -/
  | mutText
  /-- Numeric unions. -/
  | number

namespace Family

/-- The representation that a payload has. -/
def rep : Family → Rep
  | bool => .bool
  | long => .int64
  | double => .float64
  | text => .text
  | mutText => .mutText
  | number => .number

/-- The operation that puts a payload into the union. -/
def constructor : Family → Op
  | bool => .valueFromBool
  | long => .valueFromLong
  | double => .valueFromDouble
  | text => .valueFromText
  | mutText => .valueFromMutText
  | number => .valueFromNumber

/-- The typed accessor, which reads a union that is known to hold a payload. -/
def accessor? : Family → Option Op
  | bool => some .valueBool
  | long => some .valueLong
  | double => some .valueDouble
  | text => some .valueText
  | mutText => some .valueMutText
  | number => none

/-- The general operation, which reads any union. -/
def reader : Family → Op
  | bool => .valueToBool
  | long => .valueToLong
  | double => .valueToDouble
  | text => .valueToText
  | mutText => .valueToMutText
  | number => .valueToNumber

end Family

namespace Runtime

variable (R : Runtime) (k : Option ClassId) (own : Rep → R.Data → Prop)

/-- The values of a representation that a datum may be.  What the chars, the mutable texts and the
numeric unions are is up to the run-time. -/
inductive IsValue : Rep → R.Data → Prop
  /-- A truth value. -/
  | bool (b : Bool) : IsValue .bool (.ofBool b)
  /-- A 32-bit integer. -/
  | int32 (i : Int32) : IsValue .int32 (.int32 i)
  /-- A 64-bit integer. -/
  | int64 (i : Int64) : IsValue .int64 (.int64 i)
  /-- A 32-bit float. -/
  | float32 (x : Binary32) : IsValue .float32 (.float32 x)
  /-- A 64-bit float. -/
  | float64 (x : Binary64) : IsValue .float64 (.float64 x)
  /-- A char. -/
  | char {d : R.Data} (h : own .char d) : IsValue .char d
  /-- A text. -/
  | text (s : String) : IsValue .text (.text s)
  /-- A mutable text. -/
  | mutText {d : R.Data} (h : own .mutText d) : IsValue .mutText d
  /-- A numeric union. -/
  | number {d : R.Data} (h : own .number d) : IsValue .number d

/-- A union that the constructor of a family makes of a payload, and that all operations of the
family read as the payload. -/
structure Boxes (f : Family) (p u : R.Data) : Prop where
  /-- The constructor makes the union. -/
  put : R.perform (.call f.constructor) [p] = some u
  /-- The typed accessor reads it. -/
  access : ∀ op, f.accessor? = some op → R.perform (.call op) [u] = some p
  /-- The general operation reads it. -/
  read : R.perform (.call f.reader) (u :: f.reader.standard.implied k) = some p

/-- What is known of the run-time. -/
structure KeepsPayloads : Prop where
  /-- The union gives back what it was made of. -/
  boxes : ∀ f p, R.IsValue own f.rep p → ∃ u, R.Boxes k f p u
  /-- A char is the text of the char, read as a char. -/
  charText : ∀ c, own .char c → ∃ s, R.perform (.call .charToText) [c] = some (.text s) ∧
    R.perform (.call .textToChar) [.text s] = some c

/-- What the union holds of a value: the value as a payload of a family. -/
inductive Carries : Rep → R.Data → Family → R.Data → Prop
  /-- A payload is held as it is. -/
  | payload (f : Family) (p : R.Data) : Carries f.rep p f p
  /-- A 32-bit integer is extended. -/
  | int32 (i : Int32) : Carries .int32 (.int32 i) .long (.int64 i.toInt64)
  /-- A 32-bit float is widened. -/
  | float32 {x : Binary32} (h : x.toBinary64.toBinary32 = x) :
    Carries .float32 (.float32 x) .double (.float64 x.toBinary64)
  /-- Of a char, the text is held. -/
  | char {c : R.Data} {s : String} (hto : R.perform (.call .charToText) [c] = some (.text s))
    (hof : R.perform (.call .textToChar) [.text s] = some c) : Carries .char c .text (.text s)

variable {R k own} {r : Rep} {d : R.Data}

/-- The union can hold every value, and be read again. -/
theorem KeepsPayloads.exists_carries (hR : R.KeepsPayloads k own) (hd : R.IsValue own r d)
    (hexact : r = .float32 → ∀ x, d = .float32 x → x.toBinary64.toBinary32 = x) :
    ∃ f p u, R.Carries r d f p ∧ R.Boxes k f p u := by
  have payload : ∀ f : Family, R.IsValue own f.rep d →
      ∃ g p u, R.Carries f.rep d g p ∧ R.Boxes k g p u := fun f h =>
    let ⟨u, hu⟩ := hR.boxes f d h
    ⟨f, d, u, .payload f d, hu⟩
  cases hd with
  | bool b => exact payload .bool (.bool b)
  | int32 i =>
    obtain ⟨u, hu⟩ := hR.boxes .long _ (.int64 i.toInt64)
    exact ⟨_, _, u, .int32 i, hu⟩
  | int64 i => exact payload .long (.int64 i)
  | float32 x =>
    obtain ⟨u, hu⟩ := hR.boxes .double _ (.float64 x.toBinary64)
    exact ⟨_, _, u, .float32 (hexact rfl x rfl), hu⟩
  | float64 x => exact payload .double (.float64 x)
  | char h =>
    obtain ⟨s, hto, hof⟩ := hR.charText d h
    obtain ⟨u, hu⟩ := hR.boxes .text _ (.text s)
    exact ⟨_, _, u, .char hto hof, hu⟩
  | text s => exact payload .text (.text s)
  | mutText h => exact payload .mutText (.mutText h)
  | number h => exact payload .number (.number h)

end Runtime

/-! ### Both conversions -/

theorem ClassTable.eq_of_assignable_text {T : ClassTable} {source : Rep}
    (h : T.assignable source .text = true) : source = .text := by
  by_contra hne
  unfold assignable at h
  rw [if_neg hne] at h
  cases source <;> simp [Rep.isReference, Rep.root] at h

namespace Scope

variable {T : ClassTable} {k : Option ClassId} {R : Runtime} {r : Rep} {d p u : R.Data}
  {f : Family} {op : Op} {hint : Hint}

theorem ne_of_carries (hc : R.Carries r d f p) : r ≠ .value ∧ r ≠ .void ∧ r ≠ .alias := by
  cases hc with
  | payload => cases f <;> decide
  | _ => decide

theorem ne_nullable_of_carries (hc : R.Carries r d f p) (n : Payload) : r ≠ .nullable n := by
  cases hc with
  | payload => cases f <;> exact Rep.noConfusion
  | _ => exact Rep.noConfusion

theorem reshape_toUnion (hc : R.Carries r d f p) (hhint : hint = .empty ∨ hint = r.hint) :
    (standard T k).reshape r hint .value = (standard T k).toValue (standard T k).reshape r := by
  obtain ⟨hvalue, -, halias⟩ := ne_of_carries hc
  have hassign : (standard T k).classes.assignable r .value = false :=
    Bool.eq_false_iff.2 fun h => hvalue (ClassTable.eq_of_assignable h rfl)
  have hop : accessor? r hint = none := by
    rcases hhint with rfl | rfl
    · exact accessor?_empty r
    · exact accessor?_hint r
  rw [reshape_eq standard_resolvesAliases, reshapeBy, if_neg hvalue, if_neg (by decide),
    if_neg halias, hassign, narrow?, hop]
  rfl

/-- **What the first conversion computes**: the union that carries the value. -/
theorem computes_toUnion (hc : R.Carries r d f p) (hb : R.Boxes k f p u)
    (hhint : hint = .empty ∨ hint = r.hint) :
    (standard T k).Computes R ((standard T k).reshape r hint .value) [d] (some [u]) := by
  rw [reshape_toUnion hc hhint]
  have hput := hb.put
  cases hc with
  | payload =>
    cases f
    case bool => exact computes_value .valueFromBool rfl hput
    case long => exact computes_value .valueFromLong rfl hput
    case double => exact computes_value .valueFromDouble rfl hput
    case text => exact computes_value .valueFromText rfl hput
    case mutText => exact computes_value .valueFromMutText rfl hput
    case number => exact computes_value .valueFromNumber rfl hput
  | int32 i =>
    exact (computes_emit fun _ _ _ => rfl).bind rfl (computes_value .valueFromLong rfl hput)
  | float32 =>
    exact (computes_emit fun _ _ _ => rfl).bind rfl (computes_value .valueFromDouble rfl hput)
  | @char _ s hto =>
    have htext : (standard T k).Computes R ((standard T k).apply .charToText) [d]
        (some [.text s]) := (computes_value .charToText rfl hto).returning ()
    exact htext.bind rfl (computes_value .valueFromText rfl hput)

theorem accessor?_of_carries (hc : R.Carries r d f p)
    (hhint : hint = .empty ∨ hint = r.hint ∨ hint = r.hint ∪ .ref) :
    accessor? .value hint = none ∨ accessor? .value hint = f.accessor? := by
  rcases hhint with rfl | rfl | rfl
  · exact .inl rfl
  · refine .inr ?_
    cases hc with
    | payload => cases f <;> rfl
    | _ => rfl
  · refine .inl ?_
    cases hc with
    | payload => cases f <;> rfl
    | _ => rfl

theorem computes_convI4 (i : Int32) :
    (standard T k).Computes R (.emit .convI4) [.int64 i.toInt64] (some [.int32 i]) :=
  computes_emit fun _ σ ρ => by
    have hlow : (Datum.int64 i.toInt64 : R.Data).toI4? = some (.int32 i) := by
      rw [Datum.toI4?, Int32.toInt32_toInt64]
    change ((Datum.int64 i.toInt64 : R.Data).toI4?.map fun d =>
      (⟨.datum d :: σ, ρ, none⟩ : Machine R.Object)) = _
    rw [hlow]
    rfl

theorem computes_convR4 {x : Binary32} (h : x.toBinary64.toBinary32 = x) :
    (standard T k).Computes R (.emit .convR4) [.float64 x.toBinary64] (some [.float32 x]) :=
  computes_emit fun _ σ ρ => by
    change some (⟨.datum (.float32 x.toBinary64.toBinary32) :: σ, ρ, none⟩ : Machine R.Object) = _
    rw [h]
    rfl

/-- A union that is not known to hold a payload is read by the general operation. -/
theorem computes_read (hc : R.Carries r d f p) (hb : R.Boxes k f p u) :
    (standard T k).Computes R
      ((standard T k).intoTarget (standard T k).reshape .value hint r) [u] (some [d]) := by
  have hread := hb.read
  cases hc with
  | payload =>
    cases f
    case bool => exact ((computes_address .valueToBool rfl hread).returning ()).returning _
    case long => exact ((computes_address .valueToLong rfl hread).returning ()).returning _
    case double => exact ((computes_address .valueToDouble rfl hread).returning ()).returning _
    case text => exact computes_address .valueToText rfl hread
    case mutText => exact computes_value .valueToMutText rfl hread
    case number => exact ((computes_address .valueToNumber rfl hread).returning ()).returning _
  | int32 i =>
    have hlong : (standard T k).Computes R ((standard T k).toLong (standard T k).reshape .value)
        [u] (some [.int64 i.toInt64]) :=
      ((computes_address .valueToLong rfl hread).returning ()).returning _
    exact hlong.bind rfl ((computes_convI4 i).returning _)
  | @float32 x hexact =>
    have hdouble : (standard T k).Computes R
        ((standard T k).toDouble (standard T k).reshape .value) [u]
        (some [.float64 x.toBinary64]) :=
      ((computes_address .valueToDouble rfl hread).returning ()).returning _
    exact hdouble.bind rfl ((computes_convR4 hexact).returning _)
  | char hto hof =>
    exact (computes_address .valueToText rfl hread).bind rfl (computes_value .textToChar rfl hof)

/-- A union that is known to hold a payload is read by the typed accessor. -/
theorem computes_access (hop : f.accessor? = some op) (hb : R.Boxes k f p u) :
    (standard T k).Computes R ((standard T k).callByAddress .value op) [u] (some [p]) := by
  have haccess := hb.access op hop
  cases f <;> cases hop
  case bool => exact computes_address .valueBool rfl haccess
  case long => exact computes_address .valueLong rfl haccess
  case double => exact computes_address .valueDouble rfl haccess
  case text => exact computes_address .valueText rfl haccess
  case mutText => exact computes_address .valueMutText rfl haccess

theorem result_access (hop : f.accessor? = some op) :
    ((standard T k).callByAddress .value op).result = .ok f.rep := by
  cases f <;> cases hop <;> rfl

theorem computes_payload (hc : R.Carries r d f p) :
    (standard T k).Computes R ((standard T k).reshape f.rep f.rep.hint r) [p] (some [d]) := by
  cases hc with
  | payload =>
    rw [reshape_self]
    exact computes_pure _ _
  | int32 i =>
    rw [Family.rep, reshape_scalar rfl (by decide) (by decide)]
    exact (computes_pure _ _).bind rfl ((computes_convI4 i).returning _)
  | float32 hexact =>
    rw [Family.rep, reshape_scalar rfl (by decide) (by decide)]
    exact (computes_pure _ _).bind rfl ((computes_convR4 hexact).returning _)
  | char hto hof =>
    rw [Family.rep, reshape_text (by decide) rfl]
    exact (computes_pure _ _).bind rfl (computes_value .textToChar rfl hof)

/-- **What the second conversion computes**: the value that the union carries. -/
theorem computes_fromUnion (hc : R.Carries r d f p) (hb : R.Boxes k f p u)
    (hhint : hint = .empty ∨ hint = r.hint ∨ hint = r.hint ∪ .ref) :
    (standard T k).Computes R ((standard T k).reshape .value hint r) [u] (some [d]) := by
  obtain ⟨hvalue, hvoid, -⟩ := ne_of_carries hc
  cases hop : accessor? .value hint with
  | none =>
    rw [reshape_of_intoTarget standard_resolvesAliases hvalue.symm hvoid rfl hop]
    exact computes_read hc hb
  | some op =>
    have hfamily : f.accessor? = some op := by
      rcases accessor?_of_carries hc hhint with hnone | hsome
      · rw [hop] at hnone
        cases hnone
      · rw [← hsome, hop]
    rw [reshape_of_accessor? standard_resolvesAliases hop hvalue.symm hvoid]
    exact (computes_access hfamily hb).bind (result_access hfamily) (computes_payload hc)

theorem result_fromUnion (hc : R.Carries r d f p) (hint : Hint) :
    ((standard T k).convert .value hint r).result = .ok r := by
  have hcallable : r ≠ .callable := by
    cases hc with
    | payload => cases f <;> decide
    | _ => decide
  have hsame : ∀ q, T.assignable q r = true → q = r := by
    intro q hq
    by_cases hr : r.isReference = true
    · obtain rfl : r = .text := by
        cases hc with
        | payload => cases f <;> first | rfl | cases hr
        | _ => cases hr
      exact ClassTable.eq_of_assignable_text hq
    · exact ClassTable.eq_of_assignable hq (Bool.eq_false_iff.2 hr)
  rw [result_convert, outcome_of_ne_callable hcallable]
  exact congrArg _ (hsame _ assignable_leaves)

end Scope

open Scope Session

theorem Session.performAll_convert_depth {T : ClassTable} {k : Option ClassId} {s : Session}
    {source target r : Rep} {hint : Hint} (hs : s.Sound)
    (hready : s.Ready source ((standard T k).convert source hint target).steps.length)
    (hsource : source ≠ .void)
    (hresult : ((standard T k).reshape source hint target).result = .ok r) (hr : r ≠ .void) :
    ∃ s', performAll .standard ((standard T k).convert source hint target).steps s = .ok () s' ∧
      s'.builder.depth = s.builder.depth := by
  obtain ⟨s', top, hperform, hdepth, htop⟩ :=
    performAll_leaves (yields_reshape (k := k) source hint target _ (holds_value hsource))
      (hready.operand hsource) (isStraight_reshape_or hready.labels) hs hready.room
  have hone : top.length = 1 := by
    cases htop _ hresult with
    | void => exact absurd rfl hr
    | one => rfl
  refine ⟨s', hperform, ?_⟩
  rw [List.length_singleton, hone] at hdepth
  exact Nat.add_right_cancel hdepth

/-- **A value that is put into the union is read from it as it was.**  In every session with room
that has an operand, whether or not the hints tell what the value is, and whether or not it may be
behind an alias when it is read: the first conversion answers with the union and the second with the
representation.  The code of both, run on the value, leaves the value, whatever lies below it and in
the locals.  A short float has to come back from the wider format: all that are numbers do, and of
the patterns that are none the one that narrowing gives (`Binary32.toBinary32_toBinary64_iff`). -/
theorem union_round_trip {T : ClassTable} {k : Option ClassId} {o : Options} {R : Runtime}
    {own : Rep → R.Data → Prop} (hR : R.KeepsPayloads k own) {r : Rep} {d : R.Data}
    (hd : R.IsValue own r d)
    (hexact : r = .float32 → ∀ x, d = .float32 x → x.toBinary64.toBinary32 = x) {h₁ h₂ : Hint}
    (hh₁ : h₁ = .empty ∨ h₁ = r.hint) (hh₂ : h₂ = .empty ∨ h₂ = r.hint ∨ h₂ = r.hint ∪ .ref)
    {s : Session} (hs : Reachable (standard T k) o s) (hdepth : 0 < s.builder.depth)
    (hroom : s.HasRoom (((standard T k).convert r h₁ .value).steps.length +
      ((standard T k).convert .value h₂ r).steps.length)) :
    ∃ (s₁ s₂ : Session) (code : List Instr),
      (Request.convert r h₁ .value).answer (standard T k) o s = .ok (.rep .value) s₁ ∧
      (Request.convert .value h₂ r).answer (standard T k) o s₁ = .ok (.rep r) s₂ ∧
      s₂.builder.instrs.toList = s.builder.instrs.toList ++ code ∧
      ∀ (σ : List (Entry R.Object)) (ρ : Nat → R.Data), ∃ ρ',
        Machine.run R .standard s₂.builder.texts code ⟨.datum d :: σ, ρ, none⟩ =
          some ⟨.datum d :: σ, ρ', none⟩ := by
  obtain ⟨f, p, u, hc, hb⟩ := hR.exists_carries hd hexact
  obtain ⟨-, hvoid, -⟩ := ne_of_carries hc
  let into := (standard T k).convert r h₁ .value
  let back := (standard T k).convert .value h₂ r
  have hinto : ((standard T k).reshape r h₁ .value).result = .ok .value :=
    result_reshape_of_not_isReference rfl
  -- the first conversion leaves an operand to the second
  obtain ⟨s₁, hperform, hdepth₁⟩ := performAll_convert_depth hs.sound
    ⟨fun _ => hdepth, fun ⟨n, hn⟩ => absurd hn (ne_nullable_of_carries hc n),
      hroom.mono (Nat.le_add_right _ _)⟩ hvoid hinto (by decide)
  have hs₁ : s₁.Sound := ((invariant_sound .standard).performAll _).of_eq_ok hs.sound hperform
  have hroom₁ : s₁.HasRoom back.steps.length :=
    (hroom.mono (Nat.add_le_add_right List.countP_le_length _)).performAll hperform
  obtain ⟨s₂, hperform'⟩ := performAll_convert hs₁
    ⟨fun _ => hdepth₁ ▸ hdepth, fun ⟨_, hn⟩ => Rep.noConfusion hn, hroom₁⟩
  have hs₂ : s₂.Sound := ((invariant_sound .standard).performAll _).of_eq_ok hs₁ hperform'
  have hboth : performAll .standard (into.steps ++ back.steps) s = .ok () s₂ := by
    rw [performAll_append]
    exact bind_eq_ok.2 ⟨(), s₁, hperform, hperform'⟩
  refine ⟨s₁, s₂, _, ?_, ?_, performAll_code hboth, fun σ ρ => ?_⟩
  · rw [Request.answer_eq_run rfl]
    exact run_eq_ok.2 ⟨by rw [Script.result_map, convert, Script.result_mapError, hinto]; rfl,
      (Script.steps_map _ _).symm ▸ hperform⟩
  · rw [Request.answer_eq_run rfl]
    exact run_eq_ok.2 ⟨by rw [Script.result_map, result_fromUnion hc]; rfl,
      (Script.steps_map _ _).symm ▸ hperform'⟩
  · let both : Script Rep := do
      let _ ← (standard T k).reshape r h₁ .value
      (standard T k).reshape .value h₂ r
    have hcomputes : (standard T k).Computes R both [d] (some [d]) :=
      (computes_toUnion hc hb hh₁).bind hinto (computes_fromUnion hc hb hh₂)
    have hsteps : both.steps = into.steps ++ back.steps := by
      rw [Script.steps_bind, hinto]
      rfl
    have hvalid := numbers_of_performAll hboth hs₂ s.builder.labels
    rw [← hsteps] at hvalid ⊢
    exact hcomputes _ s₂.builder.texts σ ρ hvalid.text

/-- What a run-time looks into whose union holds a payload together with its family. -/
inductive Runtime.Item where
  /-- A mutable text. -/
  | mutText (s : String)
  /-- A numeric union that holds an integer. -/
  | integer (i : Int64)
  /-- A numeric union that holds a float. -/
  | float (x : Binary64)
  /-- A union. -/
  | union (f : Family) (payload : Datum Item)

/-- The chars are the code units that are a text by themselves. -/
def Runtime.Item.own : Rep → Datum Item → Prop
  | .char, d => ∃ c : Char, c.toNat < 0x10000 ∧ d = .int32 c.val.toInt32
  | .mutText, d => ∃ s, d = .object (.mutText s)
  | .number, d => (∃ i, d = .object (.integer i)) ∨ ∃ x, d = .object (.float x)
  | _, _ => False

/-- A run-time whose union holds a payload together with its family. -/
def Runtime.tagged : Runtime where
  Object := Item
  perform
    | .call .charToText, [.int32 c] => some (.text (.ofList [.ofNat c.toUInt32.toNat]))
    | .call .textToChar, [.text s] =>
      match s.toList with
      | [c] => some (.int32 c.val.toInt32)
      | _ => none
    | .call .valueFromBool, [d] => some (.object (.union .bool d))
    | .call .valueFromLong, [d] => some (.object (.union .long d))
    | .call .valueFromDouble, [d] => some (.object (.union .double d))
    | .call .valueFromText, [d] => some (.object (.union .text d))
    | .call .valueFromMutText, [d] => some (.object (.union .mutText d))
    | .call .valueFromNumber, [d] => some (.object (.union .number d))
    | .call op, .object (.union f p) :: _ =>
      if f.accessor? = some op ∨ f.reader = op then some p else none
    | _, _ => none

/-- A float is put into the union as a wider one, and read by the general operation since it may be
behind an alias. -/
theorem union_round_trip_float32 : ∃ s : Session,
    Runtime.tagged.KeepsPayloads none Runtime.Item.own ∧
    Reachable (standard .new none) .standard s ∧ s.builder.depth = 1 ∧
    ∃ (s₁ s₂ : Session) (code : List Instr),
      (Request.convert .float32 .double .value).answer (standard .new none) .standard s =
        .ok (.rep .value) s₁ ∧
      (Request.convert .value (.double ∪ .ref) .float32).answer (standard .new none) .standard s₁ =
        .ok (.rep .float32) s₂ ∧
      s₂.builder.instrs.toList = s.builder.instrs.toList ++ code ∧
      ∀ (σ : List (Entry Runtime.Item)) (ρ : Nat → Datum Runtime.Item), ∃ ρ',
        Machine.run .tagged .standard s₂.builder.texts code
            ⟨.datum (.float32 ⟨0x3fc00000⟩) :: σ, ρ, none⟩ =
          some ⟨.datum (.float32 ⟨0x3fc00000⟩) :: σ, ρ', none⟩ := by
  have hR : Runtime.tagged.KeepsPayloads none Runtime.Item.own := by
    refine ⟨fun f p _ => ⟨.object (.union f p), ?_⟩, ?_⟩
    · cases f <;> refine ⟨rfl, fun op hop => ?_, rfl⟩ <;> cases hop <;> rfl
    · rintro _ ⟨c, -, rfl⟩
      have hchar : Char.ofNat c.val.toInt32.toUInt32.toNat = c := Char.ofNat_toNat c
      refine ⟨.ofList [c], ?_, ?_⟩
      · change some (Datum.text (.ofList [.ofNat c.val.toInt32.toUInt32.toNat])) = _
        rw [hchar]
        rfl
      · simp only [Runtime.tagged, String.toList_ofList]
  let s := endOf ((Request.emit (.ldcR4 ⟨0x3fc00000⟩)).answer (standard .new none) .standard)
    (.new none none)
  have hs : Reachable (standard .new none) .standard s := .request _ (.new none none)
  have hroom : s.HasRoom (((standard .new none).convert .float32 .double .value).steps.length +
      ((standard .new none).convert .value (.double ∪ .ref) .float32).steps.length) :=
    hasRoom_of_unlimited rfl rfl (by decide +kernel)
  have hexact : ∀ x, Datum.float32 ⟨0x3fc00000⟩ = (.float32 x : Datum Runtime.Item) →
      x.toBinary64.toBinary32 = x := by
    rintro x ⟨⟩
    exact Binary32.toBinary32_toBinary64 (by decide)
  exact ⟨s, hR, hs, rfl, union_round_trip hR (.float32 _) (fun _ => hexact) (.inr rfl)
    (.inr (.inr rfl)) hs Nat.one_pos hroom⟩

end Recast
