import ClassGraft.Proofs.Graft.Redirecting
import ClassGraft.Proofs.Template.Resolving

/-!
# Counting arguments

The slots of arguments are counted in sixteen bits, and the call of an interface method states that
count and the receiver in eight.  As long as the slots and the receiver fit into sixteen bits, what
is stated is right, too many arguments are refused, and calls are only taken for equal if they take
and leave the same words (`Descriptor.counts_exactly`).  Descriptors may have more arguments than
that, and then the count starts again from zero (`Overflowing.interfaceCount_descriptorOf`).
-/

namespace ClassGraft

/-! ### Counts -/

/-- The slots that the arguments take. -/
def MethodType.slots (type : MethodType) : Nat := (type.arguments.map ValueType.size).sum

/-- Whether the slots of the arguments and a receiver fit into sixteen bits. -/
def Descriptor.IsCountable (descriptor : String) : Prop :=
  ∀ type, method? (Bytes.ofText descriptor) = some type → type.slots + 1 < 65536

/-- Whether a count is that of the slots of the arguments and the receiver. -/
def MemberName.HasCount (method : MemberName) (count : UInt8) : Prop :=
  ∃ type, Descriptor.method? (Bytes.ofText method.descriptor) = some type ∧
    count.toNat = type.slots + 1

/-- The slots are counted modulo the numbers of sixteen bits. -/
theorem MethodType.toNat_argumentsSize (type : MethodType) :
    type.argumentsSize.toNat = type.slots % 65536 := by
  rw [argumentsSize_eq, UInt16.toNat_ofNat']
  rfl

variable {descriptor : String} {type : MethodType}

/-- The count of an interface call is exact, or refused if it does not fit into eight bits. -/
theorem interfaceCount_eq (ht : Descriptor.method? (Bytes.ofText descriptor) = some type)
    (hc : type.slots + 1 < 65536) : interfaceCount descriptor =
      if type.slots + 1 ≤ 255 then .ok (UInt8.ofNat (type.slots + 1))
      else .error (.tooManyArguments descriptor) := by
  have hcount : type.argumentsSize + 1 = UInt16.ofNat (type.slots + 1) := by
    rw [MethodType.argumentsSize_eq, UInt16.ofNat_add]
    rfl
  have hnat : (UInt16.ofNat (type.slots + 1)).toNat = type.slots + 1 :=
    UInt16.toNat_ofNat_of_lt' hc
  have hlt : UInt16.ofNat (type.slots + 1) < 256 ↔ type.slots + 1 ≤ 255 := by
    rw [UInt16.lt_iff_toNat_lt, hnat]
    exact Nat.lt_succ_iff
  unfold interfaceCount
  rw [ht]
  simp only [hcount, hlt]
  split_ifs with hle
  · refine congrArg _ (UInt8.toNat_inj.mp ?_)
    rw [UInt16.toNat_toUInt8, hnat, UInt8.toNat_ofNat']
  · rfl

theorem hasCount_of_interfaceCount {method : MemberName} {count : UInt8}
    (hc : Descriptor.IsCountable method.descriptor)
    (h : interfaceCount method.descriptor = .ok count) : method.HasCount count := by
  cases ht : Descriptor.method? (Bytes.ofText method.descriptor) with
  | none =>
    unfold interfaceCount at h
    simp [ht] at h
  | some type =>
    refine ⟨type, ht, ?_⟩
    rw [interfaceCount_eq ht (hc type ht)] at h
    split_ifs at h with hle
    obtain rfl := Except.ok.inj h
    exact UInt8.toNat_ofNat_of_lt' (Nat.lt_succ_of_le hle)

/-- An instruction that states a count is the call of an interface method. -/
theorem callInstruction_eq_ok {op : Opcode} {index : UInt16} {made : Instruction Mark}
    (h : callInstruction op index descriptor = .ok made) :
    (op = Opcode.invokeInterface ∧ ∃ count, interfaceCount descriptor = .ok count ∧
        made = .invokeInterface index count) ∨
      op ≠ Opcode.invokeInterface ∧ made = .invoke op index := by
  unfold callInstruction at h
  split_ifs at h with hop
  · obtain ⟨count, hcount, rfl⟩ := Except.map_eq_ok.mp h
    exact .inl ⟨eq_of_beq hop, count, hcount, rfl⟩
  · exact .inr ⟨fun he => hop (beq_iff_eq.mpr he), (Except.ok.inj h).symm⟩

/-! ### Templates -/

/-- Whether an instruction is the call of an interface method exactly if its line is, and then
states the count of that method. -/
structure Line.Counts (line : Line) (instruction : Instruction Mark) : Prop where
  states : ∀ method interface, line = .invoke Opcode.invokeInterface method interface →
    ∃ index count, instruction = .invokeInterface index count ∧ method.HasCount count
  only : ∀ index count, instruction = .invokeInterface index count →
    ∃ method interface, line = .invoke Opcode.invokeInterface method interface

namespace Template

variable {template : Template} {body body' : Body} {pool later : Pool}

/-- The methods that a template calls have descriptors whose slots can be counted. -/
def IsCountable (template : Template) : Prop :=
  ∀ op method interface, Line.invoke op method interface ∈ template →
    Descriptor.IsCountable method.descriptor

theorem counts_of_becomes {line : Line} {marks : String → Mark} {made : Instruction Mark}
    (hc : ∀ op method interface, line = .invoke op method interface →
      Descriptor.IsCountable method.descriptor)
    (h : line.Becomes pool marks made) : line.Counts made := by
  cases line with
  | invoke op method interface =>
    obtain ⟨index, -, hcall⟩ := h
    rcases callInstruction_eq_ok hcall with ⟨rfl, count, hcount, rfl⟩ | ⟨hop, rfl⟩
    · refine ⟨fun other _ he => ⟨index, count, rfl, ?_⟩, fun _ _ _ => ⟨method, interface, rfl⟩⟩
      obtain ⟨-, rfl, -⟩ := Line.invoke.inj he
      exact hasCount_of_interfaceCount (hc _ _ _ rfl) hcount
    · exact ⟨fun _ _ he => absurd (Line.invoke.inj he).1 hop, nofun⟩
  | label name => exact h.elim
  | constant value | field op member | classOp op name | newMultiArray name dimensions =>
    obtain ⟨index, -, rfl⟩ := h
    exact ⟨nofun, nofun⟩
  | _ =>
    obtain rfl : made = _ := h
    exact ⟨nofun, nofun⟩

/-- The instructions of a template state the counts of the methods that they call. -/
theorem counts_of_stepsIn {steps : List Step} (hc : template.IsCountable)
    (h : template.stepsIn body pool = (.ok steps, body', later)) :
    List.Forall₂ (fun line step => line.Counts step.instruction) (instructions template) steps := by
  obtain ⟨next, hsteps, -⟩ := stepsIn_eq_ok.mp h
  obtain ⟨labels, -, hfrom⟩ := steps_eq_ok.mp hsteps
  obtain ⟨last, made, rfl, -, -, -, hall⟩ := becomes_of_stepsFrom hfrom
  have hbecomes := hall later _ (.refl _) last.agrees_naming
  obtain ⟨hlength, hzip⟩ := List.forall₂_iff_zip.mp hbecomes
  refine List.forall₂_iff_zip.mpr ⟨hlength, fun {line step} hpair => ?_⟩
  have hline : line ∈ template := List.mem_of_mem_filter (List.of_mem_zip hpair).1
  exact counts_of_becomes (fun op method interface he => hc op method interface (he ▸ hline))
    (hzip hpair)

/-- A template with a call of an interface method that has too many arguments is refused. -/
theorem exists_fault_of_stepsIn {method : MemberName} {interface : Bool} (hc : template.IsCountable)
    (hm : Line.invoke Opcode.invokeInterface method interface ∈ template)
    (ht : Descriptor.method? (Bytes.ofText method.descriptor) = some type)
    (hmany : 255 < type.slots + 1) : ∃ fault, (template.stepsIn body pool).1 = .error fault := by
  cases hresult : template.stepsIn body pool with
  | mk result rest =>
    cases result with
    | error fault => exact ⟨fault, rfl⟩
    | ok steps =>
      -- the line would have become a call whose count does not fit
      have hline : Line.invoke Opcode.invokeInterface method interface ∈ instructions template :=
        List.mem_filter.mpr ⟨hm, rfl⟩
      obtain ⟨step, -, hcounts⟩ := exists_of_mem_left (counts_of_stepsIn hc hresult) hline
      obtain ⟨index, count, -, found, hfound, hcount⟩ := hcounts.states _ _ rfl
      obtain rfl := Option.some.inj (ht.symm.trans hfound)
      have hlt := count.toNat_lt
      omega

end Template

/-! ### Calls that are compared -/

/-- Calls are compared by the words that they take and leave, as numbers. -/
theorem Grafting.stackEffect?_eq_iff_words? {callee replacement : MemberName} {old new : CallKind}
    (hc : Descriptor.IsCountable callee.descriptor)
    (hr : Descriptor.IsCountable replacement.descriptor) :
    stackEffect? callee.descriptor old = stackEffect? replacement.descriptor new ↔
      callee.words? old = replacement.words? new := by
  have hwords : ∀ (method : MemberName) (kind : CallKind) (type : MethodType),
      Descriptor.IsCountable method.descriptor →
      Descriptor.method? (Bytes.ofText method.descriptor) = some type →
      (type.argumentsSize + if kind.hasReceiver then 1 else 0).toNat =
        type.slots + kind.hasReceiver.toNat := by
    intro method kind type hm ht
    have hlt := hm type ht
    have hone : (if kind.hasReceiver then (1 : UInt16) else 0).toNat = kind.hasReceiver.toNat := by
      cases kind <;> rfl
    have hbound : kind.hasReceiver.toNat ≤ 1 := Bool.toNat_le _
    rw [UInt16.toNat_add, type.toNat_argumentsSize, hone]
    omega
  unfold stackEffect? MemberName.words?
  cases ht : Descriptor.method? (Bytes.ofText callee.descriptor) with
  | none => cases Descriptor.method? (Bytes.ofText replacement.descriptor) <;> simp
  | some type =>
    cases ht' : Descriptor.method? (Bytes.ofText replacement.descriptor) with
    | none => simp
    | some type' =>
      have hold := hwords callee old type hc ht
      have hnew := hwords replacement new type' hr ht'
      rw [Option.map_some, Option.map_some, Option.map_some, Option.map_some, Option.some_inj,
        Option.some_inj, Prod.mk.injEq, MethodType.words, MethodType.words, Prod.mk.injEq,
        ← UInt16.toNat_inj, hold, hnew]
      exact Iff.rfl

/-! ### Redirections -/

/-- Whether a step is the call in place of another one: it takes and leaves the same words, and the
call of an interface method states the count of that method. -/
structure Redirection.Replaces (r : Redirection) (step step' : Step) : Prop where
  mark : step'.mark = step.mark
  call : ∃ old, CallKind.ofOpcode? step.instruction.opcode = some old ∧
    step'.instruction.opcode = (r.kindFor old).opcode ∧
    r.callee.words? old = r.replacement.words? (r.kindFor old)
  count : step'.instruction.opcode = Opcode.invokeInterface → ∃ index count,
    step'.instruction = .invokeInterface index count ∧ r.replacement.HasCount count

/-- A call that is found is still found when constants are added. -/
theorem Instruction.calls_grow {pool later : Pool} {callee : MemberName}
    {instruction : Instruction Mark} (hg : pool.Grows later)
    (h : instruction.calls pool callee = true) : instruction.calls later callee = true := by
  rw [calls_eq, Option.any_eq_true] at h ⊢
  obtain ⟨found, hfound, his⟩ := h
  obtain ⟨index, hindex, hmember⟩ := Option.bind_eq_some_iff.mp hfound
  refine ⟨found, ?_, his⟩
  rw [hindex]
  exact hg.member hmember

/-- Whether a patch that redirects calls goes through a method: one that it is about, whose body no
other patch gave it. -/
def Patch.Reaches (patch : Patch) (graft : Graft) (index : Nat) : Prop :=
  index ∈ patch.targets graft ∧ (graft.history index).replacedBy = none

/-- Whether a body has the steps of another one, in which all calls to redirect are replaced. -/
def Redirection.ReplacesIn (r : Redirection) (pool : Pool) (body body' : Body) : Prop :=
  List.Forall₂ (fun step step' => r.Replaces step step' ∨
    step' = step ∧ r.isSite pool body step = false) body.steps body'.steps

/-- The calls that are found after constants were added are those from before, and perhaps more. -/
theorem Redirection.ReplacesIn.of_grows {r : Redirection} {pool later : Pool} {body body' : Body}
    (h : r.ReplacesIn later body body') (hg : pool.Grows later) : r.ReplacesIn pool body body' := by
  refine h.imp fun step step' hstep => hstep.imp_right fun ⟨hsame, hnot⟩ => ⟨hsame, ?_⟩
  rw [isSite, Bool.and_eq_false_iff] at hnot ⊢
  refine hnot.imp_right fun hcalls => ?_
  by_contra hfound
  rw [Instruction.calls_grow hg (Bool.not_eq_false _ ▸ hfound)] at hcalls
  cases hcalls

namespace Grafting

variable {graft later : Graft} {patch : Patch} {edit : Edit} {r : Redirection} {index : Nat}
  {body : Body}

theorem replaces_of_redirectStep {position : Nat} {step step' : Step}
    (hc : Descriptor.IsCountable r.callee.descriptor)
    (hr : Descriptor.IsCountable r.replacement.descriptor) (hm : step'.mark = step.mark)
    (h : redirectStep edit r.callee r.replacement r.kind position step.instruction graft =
      (.ok step'.instruction, later)) : r.Replaces step step' := by
  obtain ⟨old, number, pool, hold, heffect, -, hmade, -⟩ := redirectStep_eq_ok h
  have hop := opcode_of_callInstruction hmade
  refine ⟨hm, ⟨old, hold, hop, (stackEffect?_eq_iff_words? hc hr).mp heffect⟩,
    fun hinterface => ?_⟩
  rcases callInstruction_eq_ok hmade with ⟨-, count, hcount, hcall⟩ | ⟨hne, -⟩
  · exact ⟨number, count, hcall, hasCount_of_interfaceCount hr hcount⟩
  · exact absurd (hop.symm.trans hinterface) hne

/-- Of several steps those that are marked are replaced, and all others stay. -/
theorem replaces_of_redirectSteps {position : Nat} {done steps : List Step}
    {marked : List (Step × Bool)} (hc : Descriptor.IsCountable r.callee.descriptor)
    (hr : Descriptor.IsCountable r.replacement.descriptor)
    (h : redirectSteps edit r.callee r.replacement r.kind position done marked graft =
      (.ok steps, later)) :
    ∃ made, steps = done.reverse ++ made ∧
      List.Forall₂ (fun row step' => if row.2 = true then r.Replaces row.1 step'
        else step' = row.1) marked made := by
  obtain ⟨_, -, -, made, hmade, hall⟩ := redirectSteps_eq_ok h
  refine ⟨made, hmade, hall.imp fun row step' hyields => ?_⟩
  unfold Yields at hyields
  split_ifs at hyields ⊢
  · obtain ⟨hmark, position, before, after, -, -, hstep⟩ := hyields
    exact replaces_of_redirectStep hc hr hmark hstep
  · exact hyields

theorem replaces_of_redirectIn {count : Nat} (hc : Descriptor.IsCountable r.callee.descriptor)
    (hr : Descriptor.IsCountable r.replacement.descriptor) (hb : graft.body? index = some body)
    (h : redirectIn patch edit r.callee r.replacement r.kind index graft = (.ok count, later)) :
    ∃ body', later.body? index = some body' ∧ r.ReplacesIn graft.file.pool body body' := by
  rcases redirectIn_eq_ok h with ⟨hnone, rfl⟩ | ⟨found, steps, between, hfound, -, hsteps, rfl⟩
  · refine ⟨body, hb, List.forall₂_same.mpr fun step hstep => .inr ⟨rfl, ?_⟩⟩
    exact Redirection.isSite_of_callsOf (hnone body hb) hstep
  · obtain rfl := Option.some.inj (hb.symm.trans hfound)
    obtain ⟨made, rfl, hmade⟩ := replaces_of_redirectSteps hc hr hsteps
    obtain ⟨pool, -, rfl⟩ := extends_redirectSteps hsteps
    have hb' : (graft.withPool pool).body? index = some body := hb
    refine ⟨_, Graft.body?_setBody hb' _, ?_⟩
    refine (List.forall₂_map_left_iff.mp hmade).imp fun step step' hstep => ?_
    split_ifs at hstep with hsite
    · exact .inl hstep
    · exact .inr ⟨hstep, Bool.eq_false_iff.mpr hsite⟩

/-- Each method is gone through once, so its calls are replaced once. -/
theorem replaces_of_redirectInAll {indices : List Nat} {count count' : Nat}
    (hc : Descriptor.IsCountable r.callee.descriptor)
    (hr : Descriptor.IsCountable r.replacement.descriptor) (hn : indices.Nodup)
    (hin : index ∈ indices) (hb : graft.body? index = some body)
    (h : redirectInAll patch edit r.callee r.replacement r.kind indices count graft =
      (.ok count', later)) :
    ∃ body', later.body? index = some body' ∧ r.ReplacesIn graft.file.pool body body' := by
  induction indices generalizing count graft with
  | nil => cases hin
  | cons other rest ih =>
    obtain ⟨hnot, hn⟩ := List.nodup_cons.mp hn
    obtain ⟨more, between, hstep, h⟩ := ExceptT.bind_eq_ok.mp h
    by_cases hindex : other = index
    · subst hindex
      obtain ⟨body', hbody', hreplaces⟩ := replaces_of_redirectIn hc hr hb hstep
      exact ⟨body', (spares_redirectInAll hnot h).body body' hbody', hreplaces⟩
    · have hspares := spares_redirectIn hindex hstep
      obtain ⟨body', hbody', hreplaces⟩ := ih hn (List.mem_of_ne_of_mem (Ne.symm hindex) hin)
        (hspares.body body hb) h
      exact ⟨body', hbody', hreplaces.of_grows hspares.pool.grows⟩

/-- A redirection that is made replaces all calls to redirect in the methods that it goes through,
and leaves all other methods as they are. -/
theorem replaces_of_apply {required : Bool} {note : Note}
    (hc : Descriptor.IsCountable r.callee.descriptor)
    (hr : Descriptor.IsCountable r.replacement.descriptor)
    (h : apply patch (r.edit required) graft = (.ok note, later))
    (hb : graft.body? index = some body) :
    ∃ body', later.body? index = some body' ∧
      (patch.Reaches graft index ∧ r.ReplacesIn graft.file.pool body body' ∨
        ¬patch.Reaches graft index ∧ body' = body) := by
  have hrun : redirectCall patch (r.edit required) r.callee r.replacement r.kind required graft =
      (.ok note, later) := h
  -- The patch is for one method, which another patch may have replaced, or for all that are left.
  rcases redirectCall_eq_ok hrun with ⟨other, method, hmethod, hother, hcases⟩ |
    ⟨hmethod, count, -, hall, -⟩
  · have htargets : patch.targets graft = [other] := by
      rw [Patch.targets, hmethod]
      show (graft.file.methodIndex? method.name method.descriptor).toList = [other]
      rw [hother]
      rfl
    have hreaches : patch.Reaches graft index ↔
        index = other ∧ (graft.history index).replacedBy = none := by
      rw [Patch.Reaches, htargets, List.mem_singleton]
    rw [hreaches]
    rcases hcases with ⟨winner, hwinner, -, rfl⟩ | ⟨hfree, count, -, hall, -⟩
    · refine ⟨body, hb, .inr ⟨?_, rfl⟩⟩
      rintro ⟨rfl, hnone⟩
      rw [hwinner] at hnone
      cases hnone
    · by_cases hindex : index = other
      · subst hindex
        obtain ⟨body', hbody', hreplaces⟩ := replaces_of_redirectInAll hc hr
          (List.nodup_singleton _) (List.mem_singleton.mpr rfl) hb hall
        exact ⟨body', hbody', .inl ⟨⟨rfl, hfree⟩, hreplaces⟩⟩
      · exact ⟨body, (spares_redirectInAll (mt List.mem_singleton.mp hindex) hall).body body hb,
          .inr ⟨fun hboth => hindex hboth.1, rfl⟩⟩
  · have htargets : patch.targets graft = graft.unreplaced := by rw [Patch.targets, hmethod]
    rw [Patch.Reaches, htargets]
    by_cases hindex : index ∈ graft.unreplaced
    · have hfree : (graft.history index).replacedBy = none :=
        Option.isNone_iff_eq_none.mp (List.mem_filter.mp hindex).2
      obtain ⟨body', hbody', hreplaces⟩ := replaces_of_redirectInAll hc hr
        (List.nodup_range.filter _) hindex hb hall
      exact ⟨body', hbody', .inl ⟨⟨hindex, hfree⟩, hreplaces⟩⟩
    · exact ⟨body, (spares_redirectInAll hindex hall).body body hb,
        .inr ⟨fun hboth => hindex hboth.1, rfl⟩⟩

/-- A redirection is refused if one of the calls would be that of an interface method with too many
arguments. -/
theorem exists_fault_of_apply {required : Bool} {step : Step} {old : CallKind}
    (hc : Descriptor.IsCountable r.callee.descriptor)
    (hr : Descriptor.IsCountable r.replacement.descriptor) (hreaches : patch.Reaches graft index)
    (hb : graft.body? index = some body) (hstep : step ∈ body.steps)
    (hsite : r.isSite graft.file.pool body step = true)
    (hold : CallKind.ofOpcode? step.instruction.opcode = some old)
    (hkind : r.kindFor old = .interface)
    (ht : Descriptor.method? (Bytes.ofText r.replacement.descriptor) = some type)
    (hmany : 255 < type.slots + 1) :
    ∃ fault, (apply patch (r.edit required) graft).1 = .error fault := by
  cases hresult : apply patch (r.edit required) graft with
  | mk result later =>
    cases result with
    | error fault => exact ⟨fault, rfl⟩
    | ok note =>
      obtain ⟨body', -, hbody'⟩ := replaces_of_apply hc hr hresult hb
      have hreplacesIn := (hbody'.resolve_right fun hboth => hboth.1 hreaches).2
      obtain ⟨step', -, hstep'⟩ := exists_of_mem_left hreplacesIn hstep
      -- the call would have been replaced by one whose count does not fit
      rcases hstep' with hreplaces | ⟨-, hnot⟩
      · obtain ⟨other, hother, hop, -⟩ := hreplaces.call
        obtain rfl := Option.some.inj (hold.symm.trans hother)
        rw [hkind] at hop
        obtain ⟨number, count, -, found, hfound, hcount⟩ := hreplaces.count hop
        obtain rfl := Option.some.inj (ht.symm.trans hfound)
        have hlt := count.toNat_lt
        omega
      · rw [hsite] at hnot
        cases hnot

end Grafting

/-! ### All that counts -/

/-- The slots of arguments are counted in sixteen bits.  As long as they fit with the receiver, the
instructions of templates and redirected calls state exact counts, interface methods with more than
255 are refused, and calls are taken for equal if and only if they take and leave the same
words. -/
theorem Descriptor.counts_exactly (template : Template) (r : Redirection) :
    (∀ type : MethodType, type.argumentsSize.toNat = type.slots % 65536) ∧
    (∀ (body : Body) (pool : Pool), template.IsCountable →
      (∀ steps body' later, template.stepsIn body pool = (.ok steps, body', later) →
        List.Forall₂ (fun line step => line.Counts step.instruction)
          (Template.instructions template) steps) ∧
      ∀ (method : MemberName) (interface : Bool) (type : MethodType),
        Line.invoke Opcode.invokeInterface method interface ∈ template →
        method? (Bytes.ofText method.descriptor) = some type → 255 < type.slots + 1 →
          ∃ fault, (template.stepsIn body pool).1 = .error fault) ∧
    (IsCountable r.callee.descriptor → IsCountable r.replacement.descriptor →
      ∀ (patch : Patch) (required : Bool) (graft : Graft) (index : Nat) (body : Body),
      graft.body? index = some body →
      (∀ note later, Grafting.apply patch (r.edit required) graft = (.ok note, later) →
        ∃ body', later.body? index = some body' ∧
          (patch.Reaches graft index ∧ r.ReplacesIn graft.file.pool body body' ∨
            ¬patch.Reaches graft index ∧ body' = body)) ∧
      (patch.Reaches graft index →
        ∀ step ∈ body.steps, ∀ (old : CallKind) (type : MethodType),
        r.isSite graft.file.pool body step = true →
        CallKind.ofOpcode? step.instruction.opcode = some old → r.kindFor old = .interface →
        method? (Bytes.ofText r.replacement.descriptor) = some type → 255 < type.slots + 1 →
          ∃ fault, (Grafting.apply patch (r.edit required) graft).1 = .error fault)) ∧
    ∀ (callee replacement : MemberName) (old new : CallKind), IsCountable callee.descriptor →
      IsCountable replacement.descriptor →
      (Grafting.stackEffect? callee.descriptor old =
          Grafting.stackEffect? replacement.descriptor new ↔
        callee.words? old = replacement.words? new) := by
  refine ⟨MethodType.toNat_argumentsSize, fun body pool hc => ⟨?_, ?_⟩,
    fun hcallee hreplacement patch required graft index body hb => ⟨?_, ?_⟩, ?_⟩
  · exact fun steps body' later => Template.counts_of_stepsIn hc
  · exact fun method interface type => Template.exists_fault_of_stepsIn hc
  · exact fun note later hrun => Grafting.replaces_of_apply hcallee hreplacement hrun hb
  · exact fun hreaches step hstep old type hsite hold hkind =>
      Grafting.exists_fault_of_apply hcallee hreplacement hreaches hb hstep hsite hold hkind
  · exact fun callee replacement old new => Grafting.stackEffect?_eq_iff_words?

/-! ### A descriptor with too many arguments -/

namespace Overflowing

/-- A descriptor with some number of arguments of type long. -/
def descriptorOf (count : Nat) : String :=
  String.ofList ('(' :: List.replicate count 'J' ++ [')', 'V'])

theorem ofText_descriptorOf (count : Nat) : Bytes.ofText (descriptorOf count) =
    0x28 :: (List.replicate count 0x4A ++ [0x29, 0x56]) := by
  have hletters : (List.replicate count 'J').flatMap String.utf8EncodeChar =
      List.replicate count 0x4A := by
    induction count with
    | zero => rfl
    | succ count ih =>
      rw [List.replicate_succ, List.flatMap_cons, ih, List.replicate_succ]
      rfl
  rw [Bytes.ofText, descriptorOf, String.toList_ofList, List.flatMap_append, List.flatMap_cons,
    hletters]
  rfl

/-- As many arguments as the letters say are read. -/
theorem method?_descriptorOf (count : Nat) :
    Descriptor.method? (Bytes.ofText (descriptorOf count)) =
      some ⟨List.replicate count .long, none⟩ := by
  refine Descriptor.method?_eq_some_iff.mpr
    ⟨⟨List.replicate count [0x4A], [Descriptor.void]⟩, ?_, ?_, .absent⟩
  · rw [ofText_descriptorOf, Descriptor.Parts.text, List.flatten_replicate_singleton]
    rfl
  · induction count with
    | zero => exact .nil
    | succ count ih => exact .cons (.element (.primitive .long)) ih

/-- The count starts again from zero when the slots of the arguments are too many for sixteen
bits. -/
theorem interfaceCount_of_slots {count : Nat} (h : 2 * count = 65536) :
    ∃ type, Descriptor.method? (Bytes.ofText (descriptorOf count)) = some type ∧
      type.slots = 65536 ∧ type.argumentsSize = 0 ∧
      interfaceCount (descriptorOf count) = .ok 1 := by
  have hslots : (⟨List.replicate count .long, none⟩ : MethodType).slots = 65536 := by
    rw [MethodType.slots, List.map_replicate, List.sum_replicate, smul_eq_mul, Nat.mul_comm, ← h]
    rfl
  have hsize : (⟨List.replicate count .long, none⟩ : MethodType).argumentsSize = 0 := by
    rw [← UInt16.toNat_inj, MethodType.toNat_argumentsSize, hslots]
    rfl
  refine ⟨_, method?_descriptorOf count, hslots, hsize, ?_⟩
  unfold interfaceCount
  rw [method?_descriptorOf]
  simp only [hsize]
  rfl

/-- A descriptor with `32768` arguments of type long is not refused, and the call of an interface
method states that there is only the receiver. -/
theorem interfaceCount_descriptorOf :
    ∃ type, Descriptor.method? (Bytes.ofText (descriptorOf 32768)) = some type ∧
      type.slots = 65536 ∧ type.argumentsSize = 0 ∧
      interfaceCount (descriptorOf 32768) = .ok 1 :=
  interfaceCount_of_slots rfl

end Overflowing

end ClassGraft
