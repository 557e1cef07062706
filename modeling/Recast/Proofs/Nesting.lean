import Mathlib.Tactic.SplitIfs
import Recast.Convert.Reshape

/-!
# Nested conversions

The rules of a conversion may ask for the plan of another one: of the value behind an alias, of
a narrowed union, of what a byte array or a nullable is made from, and of the payload of a
nullable.  `Scope.Nests` lists these requests, and `Scope.nestingRank` falls along each of them.

* `Scope.reshapeBy_elim` : the six rules, as one case distinction;
* `Scope.reshapeBy_congr` : the rules ask for nothing else;
* `Scope.reshape_eq` : **the bound on nesting is never met**: where aliases do not lead to
  aliases, `Scope.reshape` obeys the rules with itself for the nested plans;
* `Scope.reshape_induction` : what the rules pass on from nested plans holds of all plans.
-/

namespace Recast

/-- An alias leads to something other than an alias. -/
def Catalog.ResolvesAliases (C : Catalog) : Prop :=
  ∀ m, C.get? .aliasGetValue = some m → m.returns ≠ .alias

namespace Script

variable {α β : Type}

theorem bind_congr {s : Script α} {f g : α → Script β}
    (h : ∀ a, s.result = .ok a → f a = g a) : s >>= f = s >>= g := by
  apply Script.ext
  · rw [steps_bind, steps_bind]
    cases hs : s.result with
    | ok a => simp only [h a hs]
    | error e => rfl
  · rw [result_bind, result_bind]
    cases hs : s.result with
    | ok a => simp only [Except.bind, h a hs]
    | error e => rfl

end Script

theorem accessor?_empty (source : Rep) : accessor? source .empty = none := by
  cases source <;> rfl

theorem source_of_accessor? {source : Rep} {hint : Hint} {op : Op}
    (h : accessor? source hint = some op) : source = .value ∨ source = .number := by
  unfold accessor? at h
  split at h
  · cases h
  · split at h <;> first | exact .inl rfl | exact .inr rfl | cases h

/-- A narrowed union is not narrowed again by what its representation tells. -/
theorem accessor?_hint (r : Rep) : accessor? r r.hint = none := by
  cases r with
  | nullable p => cases p <;> rfl
  | object c =>
    unfold accessor?
    split <;> rfl
  | _ => rfl

theorem accessor?_eq_none_of_single {source : Rep} {hint : Hint} (h : hint.single = none) :
    accessor? source hint = none := by
  unfold accessor?
  split
  · rfl
  · rw [h]
    cases source <;> rfl

namespace Scope

variable {S : Scope} {R R' : Reshape} {source target : Rep} {hint : Hint}

theorem result_call_eq_ok {op : Op} {r : Rep} :
    (S.call op).result = .ok r ↔ ∃ m, S.catalog.get? op = some m ∧ m.returns = r := by
  unfold call
  cases S.catalog.get? op with
  | some m => simp
  | none => simp [Script.fail]

/-! ### The rules -/

/-- The rules of a conversion as one case distinction. -/
theorem reshapeBy_elim {P : Script Rep → Prop}
    (stay : source = target → P (pure target))
    (discard : source ≠ .void → target = .void → P (do Script.drop source; return .void))
    (behind : source = .alias → target ≠ .alias → target ≠ .void →
      P (do let inner ← S.call .aliasGetValue; R inner hint.withoutRef target))
    (assign : source ≠ target → target ≠ .void → source ≠ .alias →
      S.classes.assignable source target = true → P (pure source))
    (narrow : ∀ op, accessor? source hint = some op → source ≠ target → target ≠ .void →
      P (do let narrowed ← S.callByAddress source op; R narrowed narrowed.hint target))
    (into : source ≠ target → target ≠ .void → source ≠ .alias →
      S.classes.assignable source target = false → accessor? source hint = none →
      P (S.intoTarget R source hint target)) :
    P (S.reshapeBy R source hint target) := by
  unfold reshapeBy
  split_ifs with hid hvoid halias hassign
  · exact stay hid
  · exact discard (fun h => hid (h.trans hvoid.symm)) hvoid
  · exact behind halias (fun h => hid (halias.trans h.symm)) hvoid
  · exact assign hid hvoid halias hassign
  · cases hop : accessor? source hint with
    | some op =>
      simp only [narrow?, hop, Option.map_some]
      exact narrow op hop hid hvoid
    | none =>
      simp only [narrow?, hop, Option.map_none]
      exact into hid hvoid halias (by simpa using hassign) hop

/-- The conversions that the rules for one conversion may ask for. -/
inductive Nests (S : Scope) (source : Rep) (hint : Hint) (target : Rep) : Rep → Hint → Rep → Prop
  /-- The value behind an alias. -/
  | behind {inner : Rep} (hs : source = .alias)
      (hi : (S.call .aliasGetValue).result = .ok inner) :
      Nests S source hint target inner hint.withoutRef target
  /-- The value of a narrowed union. -/
  | narrowed {op : Op} {narrowed : Rep} (hop : accessor? source hint = some op) :
      Nests S source hint target narrowed narrowed.hint target
  /-- The text that bytes are made from. -/
  | bytes (hs : source ≠ .alias) (hop : accessor? source hint = none) (ht : target = .bytes) :
      Nests S source hint target source hint .mutText
  /-- The payload that a nullable is made from. -/
  | wrapped {p : Payload} (hs : source ≠ .alias) (hop : accessor? source hint = none)
      (ht : target = .nullable p) : Nests S source hint target source hint p.rep
  /-- The payload of a nullable. -/
  | payload {p : Payload} (hs : source = .nullable p) :
      Nests S source hint target p.rep .empty .value

theorem toValue_congr
    (h : ∀ p, source = .nullable p → R p.rep .empty .value = R' p.rep .empty .value) :
    S.toValue R source = S.toValue R' source := by
  cases source with
  | nullable p => simp only [toValue, nullableToValue, h p rfl]
  | _ => rfl

/-- A conversion into a target depends on nested plans for a nullable's payload only, and for
what bytes and nullables are made from. -/
theorem intoTarget_congr
    (hp : ∀ p, source = .nullable p → R p.rep .empty .value = R' p.rep .empty .value)
    (hb : target = .bytes → R source hint .mutText = R' source hint .mutText)
    (hn : ∀ p, target = .nullable p → R source hint p.rep = R' source hint p.rep) :
    S.intoTarget R source hint target = S.intoTarget R' source hint target := by
  have hv : S.toValue R source = S.toValue R' source := toValue_congr hp
  cases target with
  | bytes => simp only [intoTarget, hb rfl]
  | nullable p => simp only [intoTarget, hn p rfl]
  | _ =>
    cases source with
    | nullable p =>
      simp only [intoTarget, toBool, toInt, toLong, toDouble, toNumber, toText, toMutText, toKey,
        toAlias, toCallable, viaValue, hv]
    | _ => rfl

/-- The rules ask for nothing but what `Nests` lists. -/
theorem reshapeBy_congr
    (h : ∀ s k t, S.Nests source hint target s k t → R s k t = R' s k t) :
    S.reshapeBy R source hint target = S.reshapeBy R' source hint target := by
  unfold reshapeBy
  split_ifs with hid hvoid halias hassign
  · rfl
  · rfl
  · exact Script.bind_congr fun inner hi => h _ _ _ (.behind halias hi)
  · rfl
  · cases hop : accessor? source hint with
    | some op =>
      simp only [narrow?, hop, Option.map_some]
      exact Script.bind_congr fun narrowed _ => h _ _ _ (.narrowed hop)
    | none =>
      simp only [narrow?, hop, Option.map_none]
      exact intoTarget_congr (fun p hs => h _ _ _ (.payload hs))
        (fun ht => h _ _ _ (.bytes halias hop ht)) (fun p ht => h _ _ _ (.wrapped halias hop ht))

/-! ### The depth of nesting -/

/-- The number of rounds that the rules may still take below the conversion of a value that is
neither an alias nor narrowed: one for a target made from another target, and one for a
payload. -/
def plainRank (source target : Rep) : Nat :=
  (match target with | .bytes | .nullable _ => 1 | _ => 0) +
    (match source with | .nullable _ => 1 | _ => 0)

/-- The number of rounds that the rules may still take below a conversion.  Narrowing may yield
an alias, but behind that alias nothing is known that narrows once more. -/
def nestingRank (source : Rep) (hint : Hint) (target : Rep) : Nat :=
  if source = .alias then
    if hint.withoutRef.single = none then 3 else 5
  else if (accessor? source hint).isSome then 4
  else plainRank source target

theorem plainRank_le (source target : Rep) : plainRank source target ≤ 2 := by
  unfold plainRank
  split <;> split <;> omega

theorem nestingRank_eq_plainRank (hs : source ≠ .alias) (hop : accessor? source hint = none) :
    nestingRank source hint target = plainRank source target := by
  simp only [nestingRank, hs, hop, Option.isSome_none, Bool.false_eq_true, ↓reduceIte]

theorem nestingRank_le_of_ne_alias (hs : source ≠ .alias) :
    nestingRank source hint target ≤ 4 := by
  have := plainRank_le source target
  simp only [nestingRank, hs, ↓reduceIte]
  split <;> omega

theorem nestingRank_lt_nesting : nestingRank source hint target < nesting := by
  by_cases hs : source = .alias
  · simp only [nestingRank, hs, ↓reduceIte, nesting]
    split <;> omega
  · exact Nat.lt_of_le_of_lt (nestingRank_le_of_ne_alias hs) (by decide)

theorem nestingRank_hint_le (r : Rep) : nestingRank r r.hint target ≤ 3 := by
  by_cases hs : r = .alias
  · subst hs
    have : (Rep.hint .alias).withoutRef.single = none := rfl
    simp only [nestingRank, ↓reduceIte, this, Nat.le_refl]
  · have := plainRank_le r target
    rw [nestingRank_eq_plainRank hs (accessor?_hint r)]
    omega

/-- **Nesting ends**: a nested conversion ranks below the one that asks for it. -/
theorem nestingRank_lt (hA : S.catalog.ResolvesAliases) {s t : Rep} {k : Hint}
    (h : S.Nests source hint target s k t) :
    nestingRank s k t < nestingRank source hint target := by
  cases h with
  | @behind inner hs hi =>
    obtain ⟨m, hm, rfl⟩ := result_call_eq_ok.1 hi
    have hne : m.returns ≠ .alias := hA m hm
    by_cases hsingle : hint.withoutRef.single = none
    · have := plainRank_le m.returns target
      rw [nestingRank_eq_plainRank hne (accessor?_eq_none_of_single hsingle)]
      simp only [nestingRank, hs, hsingle, ↓reduceIte]
      omega
    · have : nestingRank m.returns hint.withoutRef target ≤ 4 := nestingRank_le_of_ne_alias hne
      simp only [nestingRank, hs, hsingle, ↓reduceIte] at this ⊢
      omega
  | narrowed hop =>
    have hs : source ≠ .alias := by
      rintro rfl
      rcases source_of_accessor? hop with h | h <;> cases h
    have : nestingRank source hint target = 4 := by
      simp only [nestingRank, hs, hop, Option.isSome_some, ↓reduceIte]
    rw [this]
    exact Nat.lt_succ_of_le (nestingRank_hint_le s)
  | bytes hs hop ht =>
    rw [nestingRank_eq_plainRank hs hop, nestingRank_eq_plainRank hs hop, ht]
    simp only [plainRank]
    omega
  | @wrapped p hs hop ht =>
    rw [nestingRank_eq_plainRank hs hop, nestingRank_eq_plainRank hs hop, ht]
    have : plainRank source p.rep = plainRank source .value := by cases p <;> rfl
    rw [this]
    simp only [plainRank]
    omega
  | @payload p hs =>
    have hp : p.rep ≠ .alias := by cases p <;> simp [Payload.rep]
    have hop : accessor? source hint = none := by
      subst hs
      unfold accessor?
      split <;> rfl
    have : plainRank p.rep .value = 0 := by cases p <;> rfl
    rw [nestingRank_eq_plainRank hp (accessor?_empty p.rep), this,
      nestingRank_eq_plainRank (by simp [hs]) hop, hs]
    simp only [plainRank]
    omega

/-- Allowed to nest deeper than the rank of a conversion, the rules plan it the same way. -/
theorem reshapeAt_eq_of_lt (hA : S.catalog.ResolvesAliases) :
    ∀ {n m : Nat} {source : Rep} {hint : Hint} {target : Rep},
      nestingRank source hint target < n → nestingRank source hint target < m →
      S.reshapeAt n source hint target = S.reshapeAt m source hint target := by
  intro n
  induction n with
  | zero => exact fun h => absurd h (Nat.not_lt_zero _)
  | succ n ih =>
    intro m source hint target hn hm
    obtain ⟨m, rfl⟩ : ∃ k, m = k + 1 := ⟨m - 1, by omega⟩
    refine reshapeBy_congr fun s k t hnest => ?_
    have := nestingRank_lt hA hnest
    exact ih (by omega) (by omega)

/-- **The rules in full.**  Where aliases do not lead to aliases, the plan of a conversion obeys
the rules with all nested plans made by the same function. -/
theorem reshape_eq (hA : S.catalog.ResolvesAliases) (source : Rep) (hint : Hint) (target : Rep) :
    S.reshape source hint target = S.reshapeBy S.reshape source hint target :=
  have hlt : nestingRank source hint target < nesting := nestingRank_lt_nesting
  reshapeAt_eq_of_lt hA hlt (Nat.lt_succ_of_lt hlt)

theorem reshape_of_accessor? (hA : S.catalog.ResolvesAliases) {op : Op}
    (hop : accessor? source hint = some op) (hne : source ≠ target) (ht : target ≠ .void) :
    S.reshape source hint target =
      S.callByAddress source op >>= fun narrowed => S.reshape narrowed narrowed.hint target := by
  have hs : source ≠ .alias ∧ S.classes.assignable source target = false := by
    rcases source_of_accessor? hop with rfl | rfl <;>
      simp [ClassTable.assignable, hne, Rep.isReference]
  rw [reshape_eq hA, reshapeBy, if_neg hne, if_neg ht, if_neg hs.1, hs.2, narrow?, hop]
  rfl

theorem reshape_of_intoTarget (hA : S.catalog.ResolvesAliases) (hne : source ≠ target)
    (ht : target ≠ .void) (hs : source.isReference = false) (hop : accessor? source hint = none) :
    S.reshape source hint target = S.intoTarget S.reshape source hint target := by
  have halias : source ≠ .alias := by
    rintro rfl
    cases hs
  have hassign : S.classes.assignable source target = false := by
    simp [ClassTable.assignable, hne, hs]
  rw [reshape_eq hA, reshapeBy, if_neg hne, if_neg ht, if_neg halias, hassign, narrow?, hop]
  rfl

theorem reshape_induction (hA : S.catalog.ResolvesAliases) {P : Rep → Hint → Rep → Prop}
    (step : ∀ source hint target,
      (∀ s k t, S.Nests source hint target s k t → P s k t) → P source hint target)
    (source : Rep) (hint : Hint) (target : Rep) : P source hint target := by
  suffices ∀ n source hint target, nestingRank source hint target < n → P source hint target from
    this _ source hint target (Nat.lt_succ_self _)
  intro n
  induction n with
  | zero => exact fun _ _ _ h => absurd h (Nat.not_lt_zero _)
  | succ n ih =>
    intro source hint target hn
    refine step source hint target fun s k t hnest => ih s k t ?_
    have := nestingRank_lt hA hnest
    omega

end Scope

end Recast
