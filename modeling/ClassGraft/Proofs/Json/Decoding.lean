import ClassGraft.Json.Decoder
import ClassGraft.Proofs.Outcome

/-!
# What decoders give

A property of all values that a decoder gives follows from properties of its parts: those of the
elements of a list, of the fields of a record (`Json.Fields.Gives.decode`) and of the contents of a
case (`Json.Case.gives_decode`).
-/

namespace ClassGraft.Json

variable {ε σ τ α β : Type} {P : α → Prop} {Q : β → Prop}

/-- Whether all values that the decoder gives have a property. -/
def Decoder.Gives (decode : Decoder ε α) (P : α → Prop) : Prop :=
  ∀ outline value, decode outline = .ok value → P value

/-- Whether all records of the fields have a property, since what is found of them has one. -/
def Fields.Gives (fields : Fields ε σ α) (P : α → Prop) : Prop :=
  ∃ I : σ → Prop, I fields.start ∧
    (∀ key outline state later, I state → fields.read key outline state = some (.ok later) →
      I later) ∧
    ∀ state value, I state → fields.finish state = some value → P value

/-- Whether all values of the case have a property. -/
def Case.Gives (case : Case ε α) (P : α → Prop) : Prop :=
  ∀ outline value, case.decodeContent outline = .ok value → P value

/-! ### Parts -/

namespace Decoder

variable {decode : Decoder ε α}

theorem require_eq_ok {found : Option α} {value : α} :
    (require found : Except (Option ε) α) = .ok value ↔ found = some value := by
  unfold require misshapen
  cases found with
  | none => simp
  | some a => simp

theorem Gives.trivial : decode.Gives fun _ => True := fun _ _ _ => True.intro

theorem Gives.list (h : decode.Gives P) :
    (Decoder.list decode).Gives fun values => ∀ a ∈ values, P a := by
  intro outline values hvalues
  unfold Decoder.list at hvalues
  split at hvalues
  · obtain ⟨found, hfound, hrest⟩ := Except.bind_eq_ok.mp hvalues
    split_ifs at hrest
    · obtain rfl := Except.pure_eq_ok.mp hrest
      intro a ha
      obtain ⟨element, -, helement⟩ := exists_of_mem_right (Except.mapM_eq_ok.mp hfound) ha
      exact h element a helement
    · cases hrest
  · cases hvalues

theorem Gives.option (h : decode.Gives P) :
    (Decoder.option decode).Gives fun value => ∀ a ∈ value, P a := by
  intro outline value hvalue
  unfold Decoder.option at hvalue
  split at hvalue
  · obtain rfl := Except.ok.inj hvalue
    exact fun a ha => by cases ha
  · obtain ⟨a, ha, rfl⟩ := Except.map_eq_ok.mp hvalue
    intro b hb
    obtain rfl := Option.some.inj hb
    exact h _ _ ha

end Decoder

/-! ### Records -/

namespace Fields

variable {fields : Fields ε σ α}

theorem gives_one {key : String} {decode : Decoder ε α} {default : Option α} (h : decode.Gives P)
    (hd : ∀ a ∈ default, P a) : (Fields.one key decode default).Gives P := by
  refine ⟨fun state => ∀ a ∈ state, P a, ?_, ?_, ?_⟩
  · intro a ha
    cases ha
  · intro found outline state later hstate hread a ha
    unfold one at hread
    dsimp only at hread
    split_ifs at hread
    · cases hread
    · obtain ⟨b, hb, rfl⟩ := Except.map_eq_ok.mp (Option.some.inj hread)
      obtain rfl := Option.some.inj ha
      exact h _ _ hb
  · intro state value hstate hfinish
    cases state with
    | none => exact hd value hfinish
    | some a => exact hstate value hfinish

theorem Gives.and {second : Fields ε τ β} (h : fields.Gives P) (hs : second.Gives Q) :
    (fields.and second).Gives fun value => P value.1 ∧ Q value.2 := by
  obtain ⟨I, hstart, hread, hfinish⟩ := h
  obtain ⟨J, hstart', hread', hfinish'⟩ := hs
  refine ⟨fun state => I state.1 ∧ J state.2, ⟨hstart, hstart'⟩, ?_, ?_⟩
  · intro key outline state later hstate hlater
    unfold Fields.and at hlater
    dsimp only at hlater
    split at hlater
    · rename_i result hresult
      obtain ⟨first, hfirst, rfl⟩ := Except.map_eq_ok.mp (Option.some.inj hlater)
      exact ⟨hread _ _ _ _ hstate.1 (hfirst ▸ hresult), hstate.2⟩
    · obtain ⟨result, hresult, hmap⟩ := Option.map_eq_some_iff.mp hlater
      obtain ⟨rest, hrest, rfl⟩ := Except.map_eq_ok.mp hmap
      exact ⟨hstate.1, hread' _ _ _ _ hstate.2 (hrest ▸ hresult)⟩
  · intro state value hstate hvalue
    obtain ⟨a, ha, hrest⟩ := Option.bind_eq_some_iff.mp hvalue
    obtain ⟨b, hb, hpair⟩ := Option.bind_eq_some_iff.mp hrest
    obtain rfl := Option.some.inj hpair
    exact ⟨hfinish _ _ hstate.1 ha, hfinish' _ _ hstate.2 hb⟩

theorem Gives.mono {R : α → Prop} (h : fields.Gives P) (hr : ∀ a, P a → R a) : fields.Gives R := by
  obtain ⟨I, hstart, hread, hfinish⟩ := h
  exact ⟨I, hstart, hread, fun state value hstate hvalue => hr _ (hfinish _ _ hstate hvalue)⟩

theorem Gives.map {make : α → β} (h : fields.Gives fun a => Q (make a)) :
    (fields.map make).Gives Q := by
  obtain ⟨I, hstart, hread, hfinish⟩ := h
  refine ⟨I, hstart, hread, fun state value hstate hvalue => ?_⟩
  obtain ⟨a, ha, rfl⟩ := Option.map_eq_some_iff.mp hvalue
  exact hfinish _ _ hstate ha

theorem foldlM_eq_ok {γ : Type} {I : σ → Prop} {step : σ → γ → Except (Option ε) σ}
    (hstep : ∀ state item later, I state → step state item = .ok later → I later) {items : List γ}
    {state later : σ} (hstate : I state) (h : items.foldlM step state = .ok later) : I later := by
  induction items generalizing state with
  | nil =>
    obtain rfl := Except.pure_eq_ok.mp h
    exact hstate
  | cons item items ih =>
    obtain ⟨middle, hmiddle, hrest⟩ := Except.bind_eq_ok.mp h
    exact ih (hstep _ _ _ hstate hmiddle) hrest

/-- Records have the properties of their fields, however they are written. -/
theorem Gives.decode (h : fields.Gives P) (closed : Bool) :
    (Fields.decode fields closed : Decoder ε α).Gives P := by
  obtain ⟨I, hstart, hread, hfinish⟩ := h
  intro outline value hvalue
  -- By name or by place, each entry that is read keeps the invariant of the fields so far.
  unfold Fields.decode at hvalue
  split at hvalue
  · obtain ⟨state, hstate, hrest⟩ := Except.bind_eq_ok.mp hvalue
    have hfound := Decoder.require_eq_ok.mp hrest
    split_ifs at hfound
    refine hfinish state value (foldlM_eq_ok ?_ hstart hstate) hfound
    rintro state ⟨key, entry⟩ later hstate hlater
    unfold readEntry at hlater
    split at hlater
    · cases hlater
    · split at hlater
      · rename_i result hresult
        exact hread _ _ _ _ hstate (hlater ▸ hresult)
      · split_ifs at hlater
        · cases hlater
        · exact Except.ok.inj hlater ▸ hstate
  · obtain ⟨state, hstate, hrest⟩ := Except.bind_eq_ok.mp hvalue
    have hfound := Decoder.require_eq_ok.mp hrest
    split_ifs at hfound
    refine hfinish state value (foldlM_eq_ok ?_ hstart hstate) hfound
    rintro state ⟨element, key⟩ later hstate hlater
    unfold readElement at hlater
    dsimp only at hlater
    cases hresult : fields.read key element state with
    | none =>
      rw [hresult] at hlater
      exact Except.ok.inj hlater ▸ hstate
    | some result =>
      rw [hresult] at hlater
      exact hread _ _ _ _ hstate (hresult.trans (congrArg some hlater))
  · cases hvalue

end Fields

/-! ### Cases -/

namespace Case

theorem gives_decode {cases : List (String × Case ε α)} (h : ∀ entry ∈ cases, entry.2.Gives P) :
    (Case.decode cases).Gives P := by
  have hlookup {name : String} {case : Case ε α} (hcase : cases.lookup name = some case) :
      case.Gives P := by
    obtain ⟨before, after, rfl, -⟩ := List.lookup_eq_some_iff.mp hcase
    exact h (name, case) (List.mem_append_right _ List.mem_cons_self)
  intro outline value hvalue
  unfold Case.decode at hvalue
  split at hvalue
  · split at hvalue
    · rename_i found hfound
      exact hlookup hfound .null value hvalue
    · cases hvalue
  · obtain ⟨case, hcase, hrest⟩ := Except.bind_eq_ok.mp hvalue
    obtain ⟨found, hfound, hrest⟩ := Except.bind_eq_ok.mp hrest
    split_ifs at hrest
    · obtain rfl := Except.pure_eq_ok.mp hrest
      exact hlookup (Decoder.require_eq_ok.mp hcase) _ _ hfound
    · cases hrest
  · cases hvalue

end Case

end ClassGraft.Json
