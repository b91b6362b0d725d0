import ClassGraft.Proofs.Frame.Words
import ClassGraft.Proofs.Graft.Origins
import ClassGraft.Proofs.Graft.Retention
import ClassGraft.Proofs.Text.Descriptors

/-!
# Redirecting calls

An edit that redirects calls changes those of a method that were there from the start, in the
methods that its patch is about.  Each becomes a call of the replacement that takes and leaves the
same words, and nothing else changes but for constants that are added
(`Grafting.transforms_redirectInAll`).  When one of the calls does not fit, or when there is none
and there has to be one, the patch leaves no trace (`Redirection.transforms_or_skips`).

Calls are found by the constants that they refer to.  Those of later methods are looked at after
constants were added for earlier ones, so a call that referred to no constant at first may be
found all the same (`Late.not_transforms_or_skips`).
-/

namespace ClassGraft

/-! ### Calls and their words -/

/-- The words that a call of a method takes from the stack, and those that it leaves there. -/
def MemberName.words? (method : MemberName) (kind : CallKind) : Option (Nat × Nat) :=
  (Descriptor.method? (Bytes.ofText method.descriptor)).map (·.words kind.hasReceiver)

/-- Whether a method has a descriptor with at most 255 slots of arguments. -/
def MemberName.IsCallable (method : MemberName) : Prop :=
  ∃ type, Descriptor.method? (Bytes.ofText method.descriptor) = some type ∧
    (type.arguments.map ValueType.size).sum ≤ 255

/-- Whether an instruction is a call of a method, of a kind and through a constant of a kind. -/
structure Instruction.IsCallOf (pool : Pool) (method : MemberName) (kind : CallKind)
    (member : Pool.MemberKind) (instruction : Instruction Mark) : Prop where
  opcode : instruction.opcode = kind.opcode
  callee : instruction.calleeIndex?.bind pool.member = some ⟨member,
    ModifiedUtf8.encode method.owner, ModifiedUtf8.encode method.name,
    ModifiedUtf8.encode method.descriptor⟩
  /-- A call of an interface method states the slots of its arguments and the receiver. -/
  count : ∀ index count, instruction = .invokeInterface index count →
    ∃ type, Descriptor.method? (Bytes.ofText method.descriptor) = some type ∧
      count.toNat = (type.arguments.map ValueType.size).sum + 1

variable {pool later last : Pool} {method : MemberName} {kind : CallKind}
  {member : Pool.MemberKind} {instruction instruction' : Instruction Mark}

theorem CallKind.opcode_of_ofOpcode? {op : Opcode} (h : ofOpcode? op = some kind) :
    kind.opcode = op := by
  have hfound := List.find?_some h
  exact beq_iff_eq.mp hfound

theorem CallKind.hasReceiver_eq (kind : CallKind) :
    (kind.opcode != Opcode.invokeStatic) = kind.hasReceiver := by
  cases kind <;> decide

namespace MethodType

theorem argumentsSize_eq (type : MethodType) :
    type.argumentsSize = UInt16.ofNat (type.arguments.map ValueType.size).sum := by
  have hfold : ∀ (arguments : List ValueType) (sum : Nat),
      arguments.foldl (fun sum argument => sum + UInt16.ofNat argument.size) (UInt16.ofNat sum) =
        UInt16.ofNat (sum + (arguments.map ValueType.size).sum) := by
    intro arguments
    induction arguments with
    | nil => exact fun sum => rfl
    | cons argument rest ih =>
      intro sum
      rw [List.foldl_cons, ← UInt16.ofNat_add, ih, List.map_cons, List.sum_cons, Nat.add_assoc]
  have hall := hfold type.arguments 0
  rwa [Nat.zero_add] at hall

end MethodType

/-- The words of a call are those that its constant says. -/
theorem Pool.callWords?_of_member {index : UInt16} {found : Pool.Member} {hasReceiver : Bool}
    (h : pool.member index = some found) : pool.callWords? index hasReceiver =
      (Descriptor.method? found.descriptor).map (·.words hasReceiver) := by
  show (pool.member index).bind (fun member => (Descriptor.method? member.descriptor).bind
    fun type => some (type.words hasReceiver)) = _
  rw [h, Option.bind_some]
  cases Descriptor.method? found.descriptor <;> rfl

/-- The words of a call, whatever instruction makes it. -/
theorem Instruction.words?_of_call {found : Pool.Member}
    (hk : instruction.opcode = kind.opcode)
    (h : instruction.calleeIndex?.bind pool.member = some found) :
    instruction.words? pool = (Descriptor.method? found.descriptor).map
      (·.words kind.hasReceiver) := by
  obtain ⟨index, hindex, hmember⟩ := Option.bind_eq_some_iff.mp h
  cases instruction with
  | invoke op number =>
    obtain rfl := Option.some.inj hindex
    obtain rfl : op = kind.opcode := hk
    rw [words?, kind.hasReceiver_eq, Pool.callWords?_of_member hmember]
  | invokeInterface number count =>
    obtain rfl := Option.some.inj hindex
    have hreceiver : kind.hasReceiver = true := by
      rw [← kind.hasReceiver_eq, ← hk]
      rfl
    rw [words?, hreceiver, Pool.callWords?_of_member hmember]
  | _ => cases hindex

namespace Instruction.IsCallOf

theorem grow (h : instruction.IsCallOf pool method kind member) (hg : pool.Grows later) :
    instruction.IsCallOf later method kind member := by
  obtain ⟨index, hindex, hmember⟩ := Option.bind_eq_some_iff.mp h.callee
  refine ⟨h.opcode, ?_, h.count⟩
  rw [hindex]
  exact hg.member hmember

/-- A call takes and leaves the words that the descriptor of the method says. -/
theorem words?_eq (h : instruction.IsCallOf pool method kind member) :
    instruction.words? pool = method.words? kind := by
  rw [words?_of_call h.opcode h.callee, MemberName.words?]
  have hshape := congrArg (Option.map fun shape : List Nat × Nat =>
    (shape.1.sum + kind.hasReceiver.toNat, shape.2)) (Descriptor.shape_encode method.descriptor)
  rw [Option.map_map, Option.map_map] at hshape
  exact hshape

end Instruction.IsCallOf

namespace MemberName

variable {callee replacement : MemberName}

/-- As long as no descriptor has too many arguments, the words are compared as numbers. -/
theorem stackEffect?_eq_iff {old new : CallKind} (hc : callee.IsCallable)
    (hr : replacement.IsCallable) :
    Grafting.stackEffect? callee.descriptor old = Grafting.stackEffect? replacement.descriptor new ↔
      callee.words? old = replacement.words? new := by
  obtain ⟨type, htype, hle⟩ := hc
  obtain ⟨type', htype', hle'⟩ := hr
  have hreceiver : ∀ kind : CallKind, (if kind.hasReceiver then (1 : UInt16) else 0) =
      UInt16.ofNat kind.hasReceiver.toNat := fun kind => by cases kind <;> rfl
  have hone : ∀ kind : CallKind, kind.hasReceiver.toNat ≤ 1 := fun kind => Bool.toNat_le _
  have hold := hone old
  have hnew := hone new
  unfold Grafting.stackEffect? words?
  rw [htype, htype', Option.map_some, Option.map_some, Option.map_some, Option.map_some,
    Option.some_inj, Option.some_inj, Prod.mk.injEq, MethodType.words, MethodType.words,
    Prod.mk.injEq, hreceiver, hreceiver, MethodType.argumentsSize_eq,
    MethodType.argumentsSize_eq, ← UInt16.ofNat_add, ← UInt16.ofNat_add]
  refine and_congr_left' ⟨fun h => ?_, fun h => by rw [h]⟩
  have hsize : UInt16.size = 65536 := rfl
  have hnat := congrArg UInt16.toNat h
  rwa [UInt16.toNat_ofNat_of_lt' (hsize ▸ by omega), UInt16.toNat_ofNat_of_lt' (hsize ▸ by omega)]
    at hnat

end MemberName

/-- What is called in place of what, and how if not as before. -/
structure Redirection where
  callee : MemberName
  replacement : MemberName
  kind : Option CallKind

namespace Redirection

variable (r : Redirection)

/-- The edit of a patch that redirects the calls. -/
def edit (required : Bool) : Edit := .redirectCall r.callee r.replacement r.kind required

/-- The kind of the call in place of one of a kind. -/
def kindFor (old : CallKind) : CallKind := r.kind.getD old

/-- The kind of the constant for the call in place of an instruction: it is for an interface if such
a call is asked for or, where any kind will do, if the one before was. -/
def memberFor (pool : Pool) (instruction : Instruction Mark) : Pool.MemberKind :=
  let interface : Bool := match r.kind with
    | some kind => kind == .interface
    | none => Grafting.isOfInterface pool instruction
  if interface then .interfaceMethod else .method

/-- Whether a step is a call to redirect: one from the start of what is to be replaced. -/
def isSite (pool : Pool) (body : Body) (step : Step) : Bool :=
  body.isInitial step.mark && step.instruction.calls pool r.callee

/-- Whether a call takes and leaves the words that the one in its place does. -/
def Fits (pool : Pool) (instruction : Instruction Mark) : Prop :=
  ∃ old, CallKind.ofOpcode? instruction.opcode = some old ∧
    instruction.words? pool = r.replacement.words? (r.kindFor old)

/-- Whether a step is the call in place of another one, with the constants from before and those
from after. -/
structure Redirects (pool later : Pool) (step step' : Step) : Prop where
  mark : step'.mark = step.mark
  call : ∃ old, CallKind.ofOpcode? step.instruction.opcode = some old ∧
    step'.instruction.IsCallOf later r.replacement (r.kindFor old)
      (r.memberFor pool step.instruction)
  words : ∃ words, step.instruction.words? pool = some words ∧
    step'.instruction.words? later = some words

/-- Whether a body is the same as another but for calls, which are redirected. -/
structure Rewrites (pool later : Pool) (body body' : Body) : Prop where
  steps : List.Forall₂ (fun step step' => if r.isSite pool body step then
    r.Redirects pool later step step' else step' = step) body.steps body'.steps
  rest : body' = { body with
    steps := body'.steps, encoded := body'.encoded, modified := body'.modified }
  same : body.callsOf pool r.callee = [] → body' = body

end Redirection

namespace Redirection

variable (r : Redirection)

/-- The number of calls to redirect in a method. -/
def siteCount (graft : Graft) (index : Nat) : Nat :=
  (graft.body? index).elim 0 fun body => (body.callsOf graft.file.pool r.callee).length

/-- Whether a class is the same as another but for more constants, and for calls in some methods,
which are redirected. -/
structure Transforms (indices : List Nat) (graft after : Graft) : Prop where
  pool : graft.file.pool.Extends after.file.pool
  file : after.file = { graft.file with pool := after.file.pool, methods := after.file.methods }
  others : ∀ index, index ∉ indices ∨ graft.body? index = none →
    after.file.methods[index]? = graft.file.methods[index]?
  bodies : ∀ index ∈ indices, ∀ method body, graft.file.methods[index]? = some method →
    method.body? = some body → ∃ body', r.Rewrites graft.file.pool after.file.pool body body' ∧
      after.file.methods[index]? = some (method.withBody body')

end Redirection

/-! ### Calls and more constants -/

/-- What a call refers to. -/
theorem Instruction.exists_of_calls {callee : MemberName}
    (h : instruction.calls pool callee = true) : ∃ index found,
      instruction.calleeIndex? = some index ∧ instruction.constantIndex? = some index ∧
        pool.member index = some found ∧ found.descriptor = Bytes.ofText callee.descriptor := by
  have hindex : ∀ index, instruction.calleeIndex? = some index →
      instruction.constantIndex? = some index := by
    intro index hcallee
    cases instruction with
    | invoke | invokeInterface => exact hcallee
    | _ => nomatch hcallee
  rw [Instruction.calls_eq, Option.any_eq_true] at h
  obtain ⟨found, hfound, his⟩ := h
  obtain ⟨index, hcallee, hmember⟩ := Option.bind_eq_some_iff.mp hfound
  unfold Pool.Member.is at his
  rw [Bool.and_eq_true] at his
  exact ⟨index, found, hcallee, hindex index hcallee, hmember, beq_iff_eq.mp his.2⟩

/-- The words of a call are those that the name of the method says. -/
theorem Instruction.words?_of_calls {callee : MemberName} {old : CallKind}
    (h : instruction.calls pool callee = true)
    (hold : CallKind.ofOpcode? instruction.opcode = some old) :
    instruction.words? pool = callee.words? old := by
  obtain ⟨index, found, hcallee, -, hmember, hdescriptor⟩ := exists_of_calls h
  have hbind : instruction.calleeIndex?.bind pool.member = some found := by
    rw [hcallee]
    exact hmember
  rw [words?_of_call (CallKind.opcode_of_ofOpcode? hold).symm hbind, hdescriptor, MemberName.words?]

namespace Redirection

variable {r : Redirection} {step step' : Step} {body body' : Body}

theorem memberFor_of_grows (hg : pool.Grows later)
    (h : instruction.calls pool r.callee = true) :
    r.memberFor later instruction = r.memberFor pool instruction := by
  obtain ⟨index, found, -, hconstant, hmember, -⟩ := Instruction.exists_of_calls h
  have hsame : Grafting.isOfInterface later instruction =
      Grafting.isOfInterface pool instruction := by
    unfold Grafting.isOfInterface
    rw [hconstant, Option.bind_some, Option.bind_some, hmember, hg.member hmember]
  rw [memberFor, hsame, memberFor]

theorem Redirects.grow (h : r.Redirects pool later step step') (hg : later.Grows last) :
    r.Redirects pool last step step' := by
  obtain ⟨old, hold, hcall⟩ := h.call
  obtain ⟨words, hbefore, hafter⟩ := h.words
  refine ⟨h.mark, ⟨old, hold, hcall.grow hg⟩, words, hbefore, ?_⟩
  rw [(hcall.grow hg).words?_eq, ← hcall.words?_eq, hafter]

/-- Constants that were added before a call was redirected make no difference. -/
theorem Redirects.of_grows (h : r.Redirects later last step step') (hg : pool.Grows later)
    (hcalls : step.instruction.calls pool r.callee = true)
    (hcalls' : step.instruction.calls later r.callee = true) :
    r.Redirects pool last step step' := by
  obtain ⟨old, hold, hcall⟩ := h.call
  obtain ⟨words, hbefore, hafter⟩ := h.words
  refine ⟨h.mark, ⟨old, hold, memberFor_of_grows hg hcalls ▸ hcall⟩, words, ?_, hafter⟩
  rw [Instruction.words?_of_calls hcalls hold, ← Instruction.words?_of_calls hcalls' hold, hbefore]

/-- A call that was redirected had the words of the replacement. -/
theorem Redirects.fits (h : r.Redirects pool later step step') : r.Fits pool step.instruction := by
  obtain ⟨old, hold, hcall⟩ := h.call
  obtain ⟨words, hbefore, hafter⟩ := h.words
  exact ⟨old, hold, (hbefore.trans hafter.symm).trans hcall.words?_eq⟩

end Redirection

/-! ### One call -/

namespace Grafting

variable {graft after : Graft} {edit : Edit} {r : Redirection} {position : Nat}

theorem isCallOf_callInstruction {replacement : MemberName} {index : UInt16}
    (hr : replacement.IsCallable)
    (hm : pool.member index = some ⟨member, ModifiedUtf8.encode replacement.owner,
      ModifiedUtf8.encode replacement.name, ModifiedUtf8.encode replacement.descriptor⟩)
    (h : callInstruction kind.opcode index replacement.descriptor = .ok instruction') :
    instruction'.IsCallOf pool replacement kind member := by
  have hop := opcode_of_callInstruction h
  unfold callInstruction at h
  split_ifs at h with hinterface
  · obtain ⟨count, hcount, rfl⟩ := Except.map_eq_ok.mp h
    refine ⟨hop, hm, fun _ _ he => ?_⟩
    obtain ⟨-, rfl⟩ := Instruction.invokeInterface.inj he
    obtain ⟨type, htype, hle⟩ := hr
    refine ⟨type, htype, ?_⟩
    unfold interfaceCount at hcount
    rw [htype] at hcount
    simp only [MethodType.argumentsSize_eq] at hcount
    split_ifs at hcount with hlt
    have hsum : UInt16.ofNat (type.arguments.map ValueType.size).sum + 1 =
        UInt16.ofNat ((type.arguments.map ValueType.size).sum + 1) := (UInt16.ofNat_add _ _).symm
    have hnat : (UInt16.ofNat ((type.arguments.map ValueType.size).sum + 1)).toNat =
        (type.arguments.map ValueType.size).sum + 1 :=
      UInt16.toNat_ofNat_of_lt' (Nat.lt_of_le_of_lt (Nat.succ_le_succ hle) (by decide))
    rw [hsum] at hcount hlt
    have hbound := UInt16.lt_iff_toNat_lt.mp hlt
    rw [hnat] at hbound
    rw [← Except.ok.inj hcount, UInt16.toNat_toUInt8, hnat]
    exact Nat.mod_eq_of_lt hbound
  · obtain rfl := Except.ok.inj h
    exact ⟨hop, hm, nofun⟩

/-- A call that is redirected becomes one of the replacement, which takes and leaves the same words,
whatever constants were added before. -/
theorem redirects_of_redirectStep {step step' : Step} (hc : r.callee.IsCallable)
    (hr : r.replacement.IsCallable) (hg : pool.Grows graft.file.pool)
    (hcalls : step.instruction.calls pool r.callee = true) (hm : step'.mark = step.mark)
    (h : redirectStep edit r.callee r.replacement r.kind position step.instruction graft =
      (.ok step'.instruction, after)) : r.Redirects pool after.file.pool step step' := by
  obtain ⟨old, index, later, hold, heffect, hintern, hmade, rfl⟩ := redirectStep_eq_ok h
  have hcall : step'.instruction.IsCallOf later r.replacement (r.kindFor old)
      (r.memberFor graft.file.pool step.instruction) :=
    isCallOf_callInstruction hr (Interning.member_spec hintern).2 hmade
  obtain ⟨type, htype, -⟩ := id hc
  have hwords : r.callee.words? old = some (type.words old.hasReceiver) := by
    rw [MemberName.words?, htype, Option.map_some]
  have hsame := (MemberName.stackEffect?_eq_iff hc hr).mp heffect
  refine ⟨hm, ⟨old, hold, ?_⟩, type.words old.hasReceiver, ?_, ?_⟩
  · rw [← Redirection.memberFor_of_grows hg hcalls]
    exact hcall
  · rw [Instruction.words?_of_calls hcalls hold, hwords]
  · rw [← hwords, hsame]
    exact hcall.words?_eq

/-- The calls among steps are redirected one after another, and all other steps stay. -/
theorem redirectSteps_spec (hc : r.callee.IsCallable) (hr : r.replacement.IsCallable)
    {done steps : List Step} {marked : List (Step × Bool)}
    (hm : ∀ row ∈ marked, row.2 = true → row.1.instruction.calls graft.file.pool r.callee = true)
    (h : redirectSteps edit r.callee r.replacement r.kind position done marked graft =
      (.ok steps, after)) :
    graft.file.pool.Extends after.file.pool ∧ after = graft.withPool after.file.pool ∧
      ∃ made, steps = done.reverse ++ made ∧
        List.Forall₂ (fun row step' => if row.2 = true then
          r.Redirects graft.file.pool after.file.pool row.1 step'
            else step' = row.1) marked made := by
  obtain ⟨last, hlast, rfl, made, hmade, hall⟩ := redirectSteps_eq_ok h
  refine ⟨hlast, rfl, made, hmade, ?_⟩
  refine ((List.forall₂_and_left _ _).mpr ⟨hm, hall⟩).imp fun row step' ⟨hcalls, hyields⟩ => ?_
  unfold Yields at hyields
  split_ifs at hyields ⊢ with hrow
  · obtain ⟨hmark, position, before, later, hbefore, hlater, hstep⟩ := hyields
    exact (redirects_of_redirectStep hc hr hbefore.grows (hcalls hrow) hmark hstep).grow
      hlater.grows
  · exact hyields

end Grafting

/-! ### One method -/

/-- The steps to redirect are those that are found. -/
theorem Body.countP_isSite (body : Body) (pool : Pool) (callee : MemberName) :
    (body.steps.map fun step => (step, body.isInitial step.mark &&
      step.instruction.calls pool callee)).countP (·.2) = (body.callsOf pool callee).length := by
  rw [callsOf, initialSteps, List.filter_filter, List.length_map, ← List.countP_eq_length_filter,
    List.countP_map]
  refine List.countP_congr fun step _ => ?_
  rw [Function.comp_apply, Bool.and_comm]

/-- A body that is there already may be set. -/
theorem Method.withBody_of_body? {method : Method} {body : Body} (h : method.body? = some body) :
    method.withBody body = method := by
  have hset : ∀ attributes : List MethodAttribute,
      attributes.findSome? MethodAttribute.body? = some body →
        MethodAttribute.setBody body attributes = attributes := by
    intro attributes
    induction attributes with
    | nil => nofun
    | cons first rest ih =>
      cases first with
      | code found =>
        intro hfound
        obtain rfl := Option.some.inj hfound
        rfl
      | other raw => exact fun hfound => congrArg (List.cons _) (ih hfound)
  unfold withBody
  rw [hset method.attributes h]

namespace Redirection

variable {r : Redirection} {body body' : Body} {graft between after : Graft} {index : Nat}

theorem isSite_of_callsOf (h : body.callsOf pool r.callee = []) {step : Step}
    (hs : step ∈ body.steps) : r.isSite pool body step = false := by
  have hnone := List.map_eq_nil_iff.mp h
  rw [Body.initialSteps, List.filter_filter, List.filter_eq_nil_iff] at hnone
  have hstep := hnone step hs
  rwa [Bool.and_comm, Bool.not_eq_true] at hstep

/-- A body without the calls stays as it is. -/
theorem rewrites_self (h : body.callsOf pool r.callee = []) : r.Rewrites pool later body body where
  steps := by
    rw [List.forall₂_same]
    intro step hstep
    rw [if_neg (Bool.eq_false_iff.mp (isSite_of_callsOf h hstep))]
  rest := rfl
  same := fun _ => rfl

theorem Rewrites.grow (h : r.Rewrites pool later body body') (hg : later.Grows last) :
    r.Rewrites pool last body body' := by
  refine ⟨h.steps.imp fun step step' hstep => ?_, h.rest, h.same⟩
  split_ifs at hstep ⊢ with hsite
  · exact hstep.grow hg
  · exact hstep

/-- Which calls of a body are to be redirected does not change when constants are added, if all of
its calls refer to constants. -/
theorem callsOf_of_grows (hs : pool.IsSound) (hg : pool.Grows later) (hc : body.HasCallees pool) :
    body.callsOf later r.callee = body.callsOf pool r.callee := by
  unfold Body.callsOf
  refine congrArg (List.map Step.mark) (List.filter_congr fun step hstep => ?_)
  exact Instruction.calls_of_grows hs hg (hc step (List.mem_of_mem_filter hstep)) r.callee

theorem Rewrites.of_grows (h : r.Rewrites later last body body') (hs : pool.IsSound)
    (hg : pool.Grows later) (hc : body.HasCallees pool) : r.Rewrites pool last body body' := by
  refine ⟨?_, h.rest, fun hnone => h.same ((callsOf_of_grows hs hg hc).trans hnone)⟩
  refine ((List.forall₂_and_left _ _).mpr ⟨hc, h.steps⟩).imp fun step step' hstep => ?_
  obtain ⟨hcallees, hstep⟩ := hstep
  have hcalls : step.instruction.calls later r.callee = step.instruction.calls pool r.callee :=
    Instruction.calls_of_grows hs hg hcallees r.callee
  have hsite : r.isSite later body step = r.isSite pool body step := by
    rw [isSite, hcalls, isSite]
  rw [hsite] at hstep
  split_ifs at hstep ⊢ with hredirected
  · have hthere : step.instruction.calls pool r.callee = true :=
      (Bool.and_eq_true_iff.mp hredirected).2
    exact hstep.of_grows hg hthere (hcalls.trans hthere)
  · exact hstep

/-- Several methods are changed one after another. -/
theorem Transforms.cons {rest : List Nat} (h : r.Transforms [index] graft between)
    (h' : r.Transforms rest between after) (hs : graft.file.pool.IsSound) (hi : index ∉ rest)
    (hc : ∀ other ∈ rest, ∀ body, graft.body? other = some body →
      body.HasCallees graft.file.pool) : r.Transforms (index :: rest) graft after := by
  have hsame : ∀ other, other ≠ index →
      between.file.methods[other]? = graft.file.methods[other]? := fun other hne =>
    h.others other (.inl (mt List.mem_singleton.mp hne))
  refine ⟨h.pool.trans h'.pool, ?_, fun other hother => ?_,
    fun other hother method body hm hb => ?_⟩
  · rw [h'.file, h.file]
  · have hfirst : between.file.methods[other]? = graft.file.methods[other]? :=
      h.others other (hother.imp_left fun hnot =>
        mt List.mem_singleton.mp (List.ne_of_not_mem_cons hnot))
    rw [h'.others other (hother.imp List.not_mem_of_not_mem_cons fun hnone => ?_), hfirst]
    unfold Graft.body? at hnone ⊢
    rw [hfirst, hnone]
  · rcases List.mem_cons.mp hother with rfl | hin
    · obtain ⟨body', hrewrites, hbetween⟩ :=
        h.bodies other (List.mem_singleton.mpr rfl) method body hm hb
      exact ⟨body', hrewrites.grow h'.pool.grows, (h'.others other (.inl hi)).trans hbetween⟩
    · have hne : other ≠ index := fun he => hi (he ▸ hin)
      obtain ⟨body', hrewrites, hafter⟩ :=
        h'.bodies other hin method body ((hsame other hne).trans hm) hb
      have hthere : graft.body? other = some body := Option.bind_eq_some_iff.mpr ⟨method, hm, hb⟩
      exact ⟨body', hrewrites.of_grows hs h.pool.grows (hc other hin body hthere), hafter⟩

end Redirection

namespace Grafting

variable {graft after : Graft} {patch : Patch} {edit : Edit} {r : Redirection} {index count : Nat}

/-- Redirecting calls in a method finds all of them. -/
theorem count_of_redirectIn
    (h : redirectIn patch edit r.callee r.replacement r.kind index graft = (.ok count, after)) :
    count = r.siteCount graft index := by
  obtain ⟨_, _, hget, h⟩ := ExceptT.bind_eq_ok.mp h
  obtain ⟨rfl, rfl⟩ := ExceptT.get_eq_ok.mp hget
  unfold Redirection.siteCount
  cases hbody : graft.body? index with
  | none =>
    simp only [hbody] at h
    exact (ExceptT.pure_eq_ok.mp h).1.symm
  | some body =>
    simp only [hbody, Body.countP_isSite] at h
    split_ifs at h with hcount
    · exact (ExceptT.pure_eq_ok.mp h).1.symm.trans hcount.symm
    · obtain ⟨steps, between, -, h⟩ := ExceptT.bind_eq_ok.mp h
      obtain ⟨_, _, -, h⟩ := ExceptT.bind_eq_ok.mp h
      obtain ⟨_, _, -, h⟩ := ExceptT.bind_eq_ok.mp h
      exact (ExceptT.pure_eq_ok.mp h).1.symm

/-- Redirecting calls in a method changes nothing else. -/
theorem transforms_redirectIn (hc : r.callee.IsCallable) (hr : r.replacement.IsCallable)
    (h : redirectIn patch edit r.callee r.replacement r.kind index graft = (.ok count, after)) :
    r.Transforms [index] graft after := by
  rcases redirectIn_eq_ok h with ⟨hnone, rfl⟩ | ⟨body, steps, between, hbody, hsome, hsteps, rfl⟩
  · refine ⟨.refl _, rfl, fun _ _ => rfl, fun other hother method body hm hb => ?_⟩
    obtain rfl := List.mem_singleton.mp hother
    have hcalls := hnone body (Option.bind_eq_some_iff.mpr ⟨method, hm, hb⟩)
    exact ⟨body, Redirection.rewrites_self hcalls, by rw [Method.withBody_of_body? hb, hm]⟩
  · have hmarked : ∀ row ∈ body.steps.map fun step => (step, body.isInitial step.mark &&
        step.instruction.calls graft.file.pool r.callee), row.2 = true →
          row.1.instruction.calls graft.file.pool r.callee = true := by
      intro row hrow hsite
      obtain ⟨step, -, rfl⟩ := List.mem_map.mp hrow
      exact (Bool.and_eq_true_iff.mp hsite).2
    obtain ⟨hextends, hbetween, made, hmade', hmade⟩ :=
      redirectSteps_spec hc hr hmarked hsteps
    obtain rfl : steps = made := hmade'
    rw [List.forall₂_map_left_iff] at hmade
    -- Only the method that is visited gets another body.
    have hmethods : ∀ other, index ≠ other →
        (between.file.setBody index { body.touch with steps := steps }).methods[other]? =
          graft.file.methods[other]? := by
      intro other hne
      rw [hbetween]
      show (graft.file.methods.modify index _)[other]? = _
      rw [List.getElem?_modify]
      simp only [if_neg hne, id_map']
    refine ⟨hextends, ?_, fun other hother => ?_, fun other hother method found hm hb => ?_⟩
    · rw [hbetween]
      rfl
    · refine hmethods other ?_
      rintro rfl
      rcases hother with hnot | hnone
      · exact hnot (List.mem_singleton.mpr rfl)
      · cases hnone.symm.trans hbody
    · obtain rfl := List.mem_singleton.mp hother
      have hthere : graft.body? other = some found := Option.bind_eq_some_iff.mpr ⟨method, hm, hb⟩
      obtain rfl := Option.some.inj (hbody.symm.trans hthere)
      refine ⟨{ body.touch with steps := steps }, ⟨hmade, rfl, ?_⟩, ?_⟩
      · exact fun hnone => absurd hnone hsome
      · rw [hbetween]
        show (graft.file.methods.modify other _)[other]? = _
        rw [List.getElem?_modify_eq, hm]
        rfl

/-- The calls of a method stay what they are while those of others are redirected. -/
theorem siteCount_of_transforms {between : Graft} (h : r.Transforms [index] graft between)
    (hs : graft.file.pool.IsSound) {other : Nat} (hne : other ≠ index)
    (hc : ∀ body, graft.body? other = some body → body.HasCallees graft.file.pool) :
    r.siteCount between other = r.siteCount graft other ∧
      ∀ body, between.body? other = some body → body.HasCallees between.file.pool := by
  have hbody : between.body? other = graft.body? other := by
    unfold Graft.body?
    rw [h.others other (.inl (mt List.mem_singleton.mp hne))]
  unfold Redirection.siteCount
  rw [hbody]
  cases hthere : graft.body? other with
  | none => exact ⟨rfl, nofun⟩
  | some body =>
    have hcallees := hc body hthere
    refine ⟨congrArg List.length (Redirection.callsOf_of_grows hs h.pool.grows hcallees),
      fun found hfound => ?_⟩
    obtain rfl := Option.some.inj hfound
    intro step hstep index hindex
    obtain ⟨entry, hentry⟩ := Option.isSome_iff_exists.mp (hcallees step hstep index hindex)
    exact Option.isSome_of_eq_some (h.pool.grows index entry hentry)

/-- Redirecting calls in several methods finds all that were there before, if the calls in all but
the first method refer to constants. -/
theorem transforms_redirectInAll (hc : r.callee.IsCallable) (hr : r.replacement.IsCallable)
    {indices : List Nat} {found : Nat} (hs : graft.file.pool.IsSound) (hn : indices.Nodup)
    (hcallees : ∀ other ∈ indices.tail, ∀ body, graft.body? other = some body →
      body.HasCallees graft.file.pool)
    (h : redirectInAll patch edit r.callee r.replacement r.kind indices found graft =
      (.ok count, after)) :
    r.Transforms indices graft after ∧ count = found + (indices.map (r.siteCount graft)).sum := by
  induction indices generalizing found graft with
  | nil =>
    obtain ⟨rfl, rfl⟩ := ExceptT.pure_eq_ok.mp h
    exact ⟨⟨.refl _, rfl, fun _ _ => rfl, fun _ hin => absurd hin List.not_mem_nil⟩, rfl⟩
  | cons index rest ih =>
    obtain ⟨hnot, hn'⟩ := List.nodup_cons.mp hn
    obtain ⟨more, between, hstep, h⟩ := ExceptT.bind_eq_ok.mp h
    have hfirst := transforms_redirectIn hc hr hstep
    have hrest : ∀ other ∈ rest, r.siteCount between other = r.siteCount graft other ∧
        ∀ body, between.body? other = some body → body.HasCallees between.file.pool :=
      fun other hother => siteCount_of_transforms hfirst hs (fun he => hnot (he ▸ hother))
        (hcallees other hother)
    obtain ⟨htransforms, rfl⟩ := ih (hfirst.pool.sound hs) hn'
      (fun other hother => (hrest other (List.mem_of_mem_tail hother)).2) h
    refine ⟨hfirst.cons htransforms hs hnot hcallees, ?_⟩
    rw [count_of_redirectIn hstep, List.map_cons, List.sum_cons,
      List.map_congr_left fun other hother => (hrest other hother).1, Nat.add_assoc]

end Grafting

/-! ### Edits of patches -/

/-- The methods that a patch is about: the one that it names, or all whose body was not replaced. -/
def Patch.targets (patch : Patch) (graft : Graft) : List Nat :=
  match patch.method with
  | some method => (graft.file.methodIndex? method.name method.descriptor).toList
  | none => graft.unreplaced

/-- Whether something stands against redirecting calls in some methods: one of the calls does not
fit, or there is none and there has to be one. -/
def Redirection.Fails (r : Redirection) (required : Bool) (indices : List Nat) (graft : Graft) :
    Prop :=
  (∃ index ∈ indices, ∃ body, graft.body? index = some body ∧ ∃ step ∈ body.steps,
    r.isSite graft.file.pool body step = true ∧ ¬r.Fits graft.file.pool step.instruction) ∨
  required = true ∧ ∀ index ∈ indices, r.siteCount graft index = 0

namespace Grafting

variable {graft after : Graft} {patch : Patch} {r : Redirection} {required : Bool} {note : Note}

/-- A redirection that was made had nothing against it. -/
theorem not_fails_of_transforms {indices : List Nat} {count : Nat}
    (ht : r.Transforms indices graft after) (hcount : count = (indices.map (r.siteCount graft)).sum)
    (hfound : required = true → count ≠ 0) : ¬r.Fails required indices graft := by
  rintro (⟨index, hin, body, hbody, step, hstep, hsite, hnot⟩ | ⟨rfl, hnone⟩)
  · obtain ⟨method, hm, hb⟩ := Option.bind_eq_some_iff.mp hbody
    obtain ⟨body', hrewrites, -⟩ := ht.bodies index hin method body hm hb
    obtain ⟨step', -, hredirects⟩ := exists_of_mem_left hrewrites.steps hstep
    rw [if_pos hsite] at hredirects
    exact hnot hredirects.fits
  · refine hfound rfl ?_
    rw [hcount, List.sum_eq_zero_iff]
    intro number hnumber
    obtain ⟨index, hin, rfl⟩ := List.mem_map.mp hnumber
    exact hnone index hin

/-- Redirecting calls redirects all there are in the methods that the patch is about, unless another
patch gave the one that it names its body. -/
theorem redirectCall_spec (hc : r.callee.IsCallable) (hr : r.replacement.IsCallable)
    (hs : graft.file.pool.IsSound)
    (hcallees : patch.method = none → ∀ index ∈ graft.unreplaced, ∀ body,
      graft.body? index = some body → body.HasCallees graft.file.pool)
    (h : apply patch (r.edit required) graft = (.ok note, after)) :
    (∃ index ∈ patch.targets graft, (graft.history index).replacedBy.isSome ∧ after = graft ∧
        ∃ conflict, note = .conflict conflict) ∨
      r.Transforms (patch.targets graft) graft after ∧
        ¬r.Fails required (patch.targets graft) graft ∧
        ∃ scope, note = .applied (.redirected (r.edit required) scope
          ((patch.targets graft).map (r.siteCount graft)).sum) := by
  have hrun : redirectCall patch (r.edit required) r.callee r.replacement r.kind required graft =
      (.ok note, after) := h
  rcases redirectCall_eq_ok hrun with ⟨index, method, hmethod, hindex, hcases⟩ |
    ⟨hmethod, count, rfl, hall, hfound⟩
  · have htargets : patch.targets graft = [index] := by
      rw [Patch.targets, hmethod]
      show (graft.file.methodIndex? method.name method.descriptor).toList = [index]
      rw [hindex]
      rfl
    rw [htargets]
    rcases hcases with ⟨winner, hwinner, rfl, rfl⟩ | ⟨-, count, rfl, hall, hfound⟩
    · exact .inl ⟨index, List.mem_singleton.mpr rfl, Option.isSome_of_eq_some hwinner, rfl, _, rfl⟩
    · obtain ⟨htransforms, hcount⟩ := transforms_redirectInAll hc hr hs (List.nodup_singleton index)
        (fun other hother => absurd hother List.not_mem_nil) hall
      rw [Nat.zero_add] at hcount
      refine .inr ⟨htransforms, not_fails_of_transforms htransforms hcount hfound, .method method,
        ?_⟩
      rw [hcount]
  · have htargets : patch.targets graft = graft.unreplaced := by rw [Patch.targets, hmethod]
    rw [htargets]
    have hnodup : graft.unreplaced.Nodup := List.nodup_range.filter _
    obtain ⟨htransforms, hcount⟩ := transforms_redirectInAll hc hr hs hnodup
      (fun other hother => hcallees hmethod other (List.mem_of_mem_tail hother)) hall
    rw [Nat.zero_add] at hcount
    refine .inr ⟨htransforms, not_fails_of_transforms htransforms hcount hfound,
      .wholeClass graft.file.nameText, ?_⟩
    rw [hcount]

end Grafting

/-- The class after turns has the constants of the one that was read, and more. -/
theorem ClassFile.isSound_of_leads {bytes : Bytes} {file : ClassFile} {past : List Turn}
    {graft : Graft} (h : parse bytes = .ok file) (hl : (Graft.start file).Leads past graft) :
    graft.file.pool.IsSound := by
  have hp := isParsed_of_parse h
  have hgrafted : file.Grafted (fun _ => True) graft.file := by
    induction hl with
    | refl => exact .read
    | step _ valid ih => exact Grafting.grafted_apply (fun _ _ => trivial) ih valid
  exact (hgrafted.retains hp).pool.sound hp.sound

/-- An edit that fails takes back the whole patch, whatever its other edits did. -/
theorem Graft.applyPatch_of_failing {start graft : Graft} {patch : Patch} {edit : Edit}
    {before after : List Edit} {notes : List Note} (he : patch.edits = before ++ edit :: after)
    (hb : before.mapM (Grafting.apply patch) start = (.ok notes, graft))
    (hf : ∀ note last, Grafting.apply patch edit graft ≠ (.ok note, last)) :
    ∃ fault, start.applyPatch patch = (start, [⟨some patch.id, .skipped fault⟩]) := by
  obtain ⟨result, last, hrun⟩ : ∃ result last,
      Grafting.apply patch edit graft = (result, last) := ⟨_, _, rfl⟩
  cases result with
  | error fault => exact ⟨fault, applyPatch_of_error he hb (by rw [hrun])⟩
  | ok note => exact absurd hrun (hf note last)

namespace Redirection

/-- Whether a patch asks for a redirection of calls after its other edits were made, in a class that
was read and that edits of other patches led to. -/
structure IsAsked (r : Redirection) (required : Bool) (file : ClassFile) (past : List Turn)
    (start : Graft) (patch : Patch) (before : List Edit) (graft : Graft) : Prop where
  read : ∃ bytes, ClassFile.parse bytes = .ok file
  leads : (Graft.start file).Leads past start
  edits : ∃ after, patch.edits = before ++ r.edit required :: after
  made : ∃ notes, before.mapM (Grafting.apply patch) start = (.ok notes, graft)
  callee : r.callee.IsCallable
  replacement : r.replacement.IsCallable

/-- An edit that redirects calls finds those from the start of what is to be replaced, in the
methods that the patch is about, and changes nothing else.  If one of them does not fit, or there is
none and there has to be one, then the class is left as it was before the patch. -/
theorem transforms_or_skips {r : Redirection} {required : Bool} {file : ClassFile}
    {past : List Turn} {start graft : Graft} {patch : Patch} {before : List Edit}
    (h : r.IsAsked required file past start patch before graft)
    (hcallees : patch.method = none → ∀ index ∈ graft.unreplaced, ∀ body,
      graft.body? index = some body → body.HasCallees graft.file.pool) :
    (∃ turns, (Graft.start file).Leads (past ++ turns) graft ∧
      turns.map (fun turn => (turn.patch, turn.edit)) = before.map (patch, ·) ∧
      ∀ index body, graft.body? index = some body → ∀ step ∈ body.steps,
        (body.isInitial step.mark = true ↔ ∃ first,
          file.firstBody? index (past ++ turns) = some first ∧
            step.mark ∈ first.steps.map (·.mark))) ∧
    (∀ deed later, Grafting.apply patch (r.edit required) graft = (.ok (.applied deed), later) →
      r.Transforms (patch.targets graft) graft later) ∧
    ((∀ index ∈ patch.targets graft, (graft.history index).replacedBy = none) →
      r.Fails required (patch.targets graft) graft →
        ∃ fault, start.applyPatch patch = (start, [⟨some patch.id, .skipped fault⟩])) := by
  obtain ⟨bytes, hparse⟩ := h.read
  obtain ⟨after, hedits⟩ := h.edits
  obtain ⟨notes, hmade⟩ := h.made
  obtain ⟨turns, hleads, hturns, -⟩ := Graft.exists_turns_of_mapM h.leads hmade
  have hspec : ∀ note later, Grafting.apply patch (r.edit required) graft = (.ok note, later) → _ :=
    fun note later => @Grafting.redirectCall_spec graft later patch r required note h.callee
      h.replacement (ClassFile.isSound_of_leads hparse hleads) hcallees
  refine ⟨⟨turns, hleads, hturns, fun index body hbody step hstep =>
    ClassFile.isInitial_iff hparse hleads hbody hstep⟩, fun deed later hrun => ?_,
    fun hfree hfails => ?_⟩
  · rcases hspec _ _ hrun with ⟨-, -, -, -, conflict, hnote⟩ | ⟨htransforms, -⟩
    · nomatch hnote
    · exact htransforms
  · refine Graft.applyPatch_of_failing hedits hmade fun note later hrun => ?_
    rcases hspec _ _ hrun with ⟨index, hin, hreplaced, -⟩ | ⟨-, hnot, -⟩
    · rw [hfree index hin] at hreplaced
      nomatch hreplaced
    · exact hnot hfails

end Redirection

/-! ### A call without a constant -/

namespace Late

open Dangling (callee classOf methodBytes methodOf bodyOf parse_classOf)

/-- A class with a field `y`.  Its method `m` calls the interface method `X.y`, and its method `n`
calls the method at index 13, where there is no constant. -/
def bytes : Bytes :=
  [0xca, 0xfe, 0xba, 0xbe, 0, 0, 0, 52, 0, 13] ++ Dangling.constants ++ [11, 0, 8, 0, 10] ++
    [1, 0, 1, 0x49] ++ [0, 1, 0, 2, 0, 0, 0, 0] ++ [0, 1, 0, 0, 0, 9, 0, 12, 0, 0] ++ [0, 2] ++
    methodBytes 3 [0xb6, 0, 11, 0xb1] ++ methodBytes 4 [0xb6, 0, 13, 0xb1] ++ [0, 0]

def file : ClassFile := classOf bytes

/-- Has the method called in another way. -/
def redirection : Redirection := ⟨callee, callee, some .special⟩

def patch : Patch := ⟨"a", "C", none, 0, [redirection.edit true]⟩

theorem parse_eq : ClassFile.parse bytes = .ok file := parse_classOf (by decide +kernel)

theorem isCallable : callee.IsCallable := ⟨⟨[], none⟩, by decide, by decide⟩

/-- The constants after the call in `m` was redirected. -/
def grown : Pool := file.pool.push (.member .method 8 10) (by decide +kernel)

/-- The method is found where its names and its class are. -/
theorem method_eq {pool later : Pool} {index : UInt16}
    (h : [.utf8 [0x58], .named .classRef 7, .utf8 [0x79], .utf8 [0x28, 0x29, 0x56],
      .nameAndType 9 5].map (fun entry => pool.slots.toList.findIdx? (· == some entry)) =
        [some 6, some 7, some 8, some 4, some 9])
    (hm : Interning.entry (.member .method 8 10) pool = (.ok index, later)) :
    Interning.method callee.owner callee.name callee.descriptor false pool =
      (.ok index, later) := by
  simp only [List.map_cons, List.map_nil, List.cons.injEq, and_true] at h
  obtain ⟨hx, hclass, hy, htype, hpair⟩ := h
  have howner : Interning.classRef "X" pool = (.ok 8, pool) :=
    ExceptT.bind_eq_ok.mpr ⟨7, _, Pool.add_of_findIdx?_eq_some hx,
      Pool.add_of_findIdx?_eq_some hclass⟩
  have hsignature : Interning.nameAndType "y" "()V" pool = (.ok 10, pool) :=
    ExceptT.bind_eq_ok.mpr ⟨9, _, Pool.add_of_findIdx?_eq_some hy,
      ExceptT.bind_eq_ok.mpr ⟨5, _, Pool.add_of_findIdx?_eq_some htype,
        Pool.add_of_findIdx?_eq_some hpair⟩⟩
  show Interning.member .method "X" "y" "()V" pool = _
  exact ExceptT.bind_eq_ok.mpr ⟨8, _, howner, ExceptT.bind_eq_ok.mpr ⟨10, _, hsignature, hm⟩⟩

/-- It is added at the index of the call in `n`. -/
theorem method_file : Interning.method callee.owner callee.name callee.descriptor false file.pool =
    (.ok 13, grown) := by
  refine method_eq (by decide +kernel) ?_
  have hadd := Pool.add_of_findIdx?_eq_none
    (show file.pool.slots.toList.findIdx? (· == some (.member .method 8 10)) = none by
      decide +kernel) (by decide +kernel)
  have hsize : file.pool.slots.size = 12 := by decide +kernel
  rw [hsize] at hadd
  exact hadd

theorem method_grown : Interning.method callee.owner callee.name callee.descriptor false grown =
    (.ok 13, grown) := by
  refine method_eq (by decide +kernel) ?_
  have hfound : grown.slots.toList.findIdx? (· == some (.member .method 8 10)) = some 12 := by
    decide +kernel
  exact Pool.add_of_findIdx?_eq_some hfound

/-- A body of the class after its call was redirected. -/
def redirected (index : Nat) : Body := { (bodyOf bytes index).touch with
  steps := [⟨⟨0⟩, .invoke 0xb7 13⟩, ⟨⟨1⟩, .plain 0xb1⟩] }

/-- What redirecting the call in a method does. -/
theorem redirectIn_eq {graft : Graft} {index : Nat} {number : UInt16} {pool : Pool}
    (hb : graft.body? index = some (bodyOf bytes index))
    (hs : (bodyOf bytes index).steps = [⟨⟨0⟩, .invoke 0xb6 number⟩, ⟨⟨1⟩, .plain 0xb1⟩])
    (hm : (bodyOf bytes index).steps.map (redirection.isSite graft.file.pool (bodyOf bytes index)) =
      [true, false])
    (hp : Interning.method callee.owner callee.name callee.descriptor false graft.file.pool =
      (.ok 13, pool)) :
    Grafting.redirectIn patch (redirection.edit true) callee callee (some .special) index graft =
      (.ok 1, ⟨(graft.withPool pool).file.setBody index (redirected index),
        graft.histories.insert index ((graft.history index).edited "a")⟩) := by
  have hstep : Grafting.redirectStep (redirection.edit true) callee callee (some .special) 0
      (.invoke 0xb6 number) graft = (.ok (.invoke 0xb7 13), graft.withPool pool) := by
    have hold : CallKind.ofOpcode? (Instruction.opcode (.invoke 0xb6 number : Instruction Mark)) =
        some .virtual := rfl
    unfold Grafting.redirectStep
    simp only [hold]
    refine ExceptT.guard_eq_ok.mpr ⟨by decide, ?_⟩
    refine ExceptT.bind_eq_ok.mpr ⟨graft, graft, ExceptT.get_eq_ok.mpr ⟨rfl, rfl⟩, ?_⟩
    refine ExceptT.bind_eq_ok.mpr ⟨13, graft.withPool pool,
      Grafting.intern_eq_ok.mpr ⟨pool, hp, rfl⟩, ?_⟩
    exact ExceptT.lift_eq_ok.mpr ⟨rfl, rfl⟩
  -- The call is the site, and the return after it is none.
  have hmarked : ((bodyOf bytes index).steps.map fun step =>
      (step, (bodyOf bytes index).isInitial step.mark &&
        step.instruction.calls graft.file.pool callee)) =
      [(⟨⟨0⟩, .invoke 0xb6 number⟩, true), (⟨⟨1⟩, .plain 0xb1⟩, false)] := by
    rw [hs] at hm ⊢
    obtain ⟨hfirst, hlast⟩ := List.cons.inj hm
    have hsecond := (List.cons.inj hlast).1
    exact congrArg₂ (fun first second => [(_, first), (_, second)]) hfirst hsecond
  have hsteps : Grafting.redirectSteps (redirection.edit true) callee callee (some .special) 0 []
      [(⟨⟨0⟩, .invoke 0xb6 number⟩, true), (⟨⟨1⟩, .plain 0xb1⟩, false)] graft =
        (.ok [⟨⟨0⟩, .invoke 0xb7 13⟩, ⟨⟨1⟩, .plain 0xb1⟩], graft.withPool pool) :=
    ExceptT.bind_eq_ok.mpr ⟨_, _, hstep, rfl⟩
  refine ExceptT.bind_eq_ok.mpr ⟨graft, graft, ExceptT.get_eq_ok.mpr ⟨rfl, rfl⟩, ?_⟩
  simp only [hb, hmarked]
  refine ExceptT.bind_eq_ok.mpr ⟨_, _, hsteps, ?_⟩
  refine ExceptT.bind_eq_ok.mpr ⟨(), _, Grafting.setBody_eq_ok.mpr rfl, ?_⟩
  exact ExceptT.bind_eq_ok.mpr ⟨(), _, Grafting.setHistory_eq_ok.mpr rfl,
    ExceptT.pure_eq_ok.mpr ⟨rfl, rfl⟩⟩

/-- The class after the call in `m` was redirected, and that after the one in `n` was as well. -/
def between : Graft :=
  ⟨((Graft.start file).withPool grown).file.setBody 0 (redirected 0),
    (Graft.start file).histories.insert 0 (((Graft.start file).history 0).edited "a")⟩

def finished : Graft :=
  ⟨(between.withPool grown).file.setBody 1 (redirected 1),
    between.histories.insert 1 ((between.history 1).edited "a")⟩

theorem body?_start (index : Nat) (h : index < 2) :
    (Graft.start file).body? index = some (bodyOf bytes index) := by
  interval_cases index
  · decide +kernel
  · decide +kernel

theorem unreplaced_eq : (Graft.start file).unreplaced = [0, 1] := by
  have hall : ∀ index ∈ List.range (Graft.start file).file.methods.length,
      ((Graft.start file).history index).replacedBy.isNone = true := by
    intro index _
    rw [Graft.history_start]
    rfl
  have hlength : (Graft.start file).file.methods.length = 2 := by decide +kernel
  rw [Graft.unreplaced, List.filter_eq_self.mpr hall, hlength]
  rfl

/-- The call in `n` is found once there is a constant for it. -/
theorem apply_eq : Grafting.apply patch (redirection.edit true) (.start file) =
    (.ok (.applied (.redirected (redirection.edit true) (.wholeClass file.nameText) 2)),
      finished) := by
  have hfirst : Grafting.redirectIn patch (redirection.edit true) callee callee (some .special) 0
      (.start file) = (.ok 1, between) :=
    @redirectIn_eq (.start file) 0 11 grown (body?_start 0 (by decide)) (by decide +kernel)
      (by decide +kernel) method_file
  have hsecond : Grafting.redirectIn patch (redirection.edit true) callee callee (some .special) 1
      between = (.ok 1, finished) :=
    @redirectIn_eq between 1 13 grown (by decide +kernel) (by decide +kernel) (by decide +kernel)
      method_grown
  refine ExceptT.bind_eq_ok.mpr ⟨.start file, .start file, ExceptT.get_eq_ok.mpr ⟨rfl, rfl⟩, ?_⟩
  refine ExceptT.bind_eq_ok.mpr ⟨2, finished, ?_, ExceptT.guard_eq_ok.mpr ⟨by decide, rfl⟩⟩
  show Grafting.redirectInAll patch (redirection.edit true) callee callee (some .special)
    (Graft.start file).unreplaced 0 (.start file) = (.ok 2, finished)
  rw [unreplaced_eq]
  refine ExceptT.bind_eq_ok.mpr ⟨1, between, hfirst, ?_⟩
  exact ExceptT.bind_eq_ok.mpr ⟨1, finished, hsecond, rfl⟩

/-- Has the method `m` replaced by one without a body. -/
def overwriting : Patch := ⟨"a", "C", none, 0, [.addMethod [.isAbstract] ⟨"m", "()V"⟩ none true]⟩

/-- Has calls in `m` redirected, and the field changed. -/
def changing : Patch :=
  ⟨"b", "C", some ⟨"m", "()V"⟩, 0,
    [redirection.edit true, .addField [.isStatic] ⟨"y", "I"⟩ true]⟩

def overwritten : Graft := ((Graft.start file).applyPatches [overwriting]).1

/-- The first patch leads to a class in which the second one does not redirect anything, and yet
changes the field. -/
theorem overwritten_spec : (∃ turns, (Graft.start file).Leads turns overwritten) ∧
    (overwritten.applyPatch changing).1 ≠ overwritten := by
  have hkept : ∀ entry ∈ ((Graft.start file).applyPatches [overwriting]).2,
      entry.isSkipped = false := by decide +kernel
  obtain ⟨turns, hleads, -⟩ := Graft.exists_turns .refl hkept
  refine ⟨⟨_, hleads⟩, fun hsame => ?_⟩
  have hafter : (overwritten.applyPatch changing).1.file.fields.map (·.access) = [8] := by
    decide +kernel
  have hbefore : overwritten.file.fields.map (·.access) = [0] := by decide +kernel
  rw [hsame, hbefore] at hafter
  exact absurd hafter (by decide)

/-- A call that refers to no constant is redirected as well if the constant for it is added on the
way.  A redirection that is dropped, since another patch gave the method its body, does not take
back what else the patch does. -/
theorem not_transforms_or_skips :
    (¬∀ (r : Redirection) (required : Bool) (file : ClassFile) (past : List Turn) (start : Graft)
      (patch : Patch) (before : List Edit) (graft : Graft),
      r.IsAsked required file past start patch before graft → ∀ deed later,
        Grafting.apply patch (r.edit required) graft = (.ok (.applied deed), later) →
          r.Transforms (patch.targets graft) graft later) ∧
    ¬∀ (r : Redirection) (required : Bool) (file : ClassFile) (past : List Turn) (start : Graft)
      (patch : Patch) (before : List Edit) (graft : Graft),
      r.IsAsked required file past start patch before graft →
        r.Fails required (patch.targets graft) graft → (start.applyPatch patch).1 = start := by
  constructor
  · intro hclaim
    have htransforms := hclaim redirection true file [] (.start file) patch [] (.start file)
      ⟨⟨bytes, parse_eq⟩, .refl, ⟨[], rfl⟩, ⟨[], rfl⟩, isCallable, isCallable⟩ _ _ apply_eq
    have hin : 1 ∈ patch.targets (Graft.start file) := by
      show 1 ∈ (Graft.start file).unreplaced
      rw [unreplaced_eq]
      exact List.mem_cons_of_mem _ (List.mem_singleton.mpr rfl)
    obtain ⟨body', hrewrites, hafter⟩ := htransforms.bodies 1 hin (methodOf bytes 1)
      (bodyOf bytes 1) (by decide +kernel) (by decide +kernel)
    have hthere : finished.body? 1 = some body' := by
      unfold Graft.body?
      rw [hafter, Option.bind_some, Method.body?_withBody]
    have hredirected : finished.body? 1 = some (redirected 1) :=
      Graft.body?_setBody (show (between.withPool grown).body? 1 = some (bodyOf bytes 1) by
        decide +kernel) _
    obtain rfl := Option.some.inj (hredirected.symm.trans hthere)
    -- what `n` calls was no method when the edit began
    have hsteps : (bodyOf bytes 1).steps = [⟨⟨0⟩, .invoke 0xb6 13⟩, ⟨⟨1⟩, .plain 0xb1⟩] := by
      decide +kernel
    have hsite : redirection.isSite (Graft.start file).file.pool (bodyOf bytes 1)
        ⟨⟨0⟩, .invoke 0xb6 13⟩ = false := by decide +kernel
    have hforall := hrewrites.steps
    rw [hsteps] at hforall
    obtain ⟨hfirst, -⟩ := List.forall₂_cons.mp hforall
    rw [if_neg (Bool.eq_false_iff.mp hsite)] at hfirst
    exact absurd hfirst (by decide)
  · intro hclaim
    obtain ⟨⟨turns, hleads⟩, hne⟩ := overwritten_spec
    have htargets : changing.targets overwritten = [0] := by decide +kernel
    refine hne (hclaim redirection true file turns overwritten changing [] overwritten
      ⟨⟨bytes, parse_eq⟩, hleads, ⟨_, rfl⟩, ⟨[], rfl⟩, isCallable, isCallable⟩
      (.inr ⟨rfl, fun index hin => ?_⟩))
    rw [htargets] at hin
    obtain rfl := List.mem_singleton.mp hin
    decide +kernel

/-- Has the call in `m` redirected. -/
def named : Patch := ⟨"a", "C", some ⟨"m", "()V"⟩, 0, [redirection.edit true]⟩

/-- The call in `m` is a site, whatever `n` calls. -/
theorem apply_named : Grafting.apply named (redirection.edit true) (.start file) =
    (.ok (.applied (.redirected (redirection.edit true) (.method ⟨"m", "()V"⟩) 1)), between) := by
  have hredirect : Grafting.redirectIn named (redirection.edit true) callee callee (some .special) 0
      (.start file) = (.ok 1, between) :=
    @redirectIn_eq (.start file) 0 11 grown (body?_start 0 (by decide)) (by decide +kernel)
      (by decide +kernel) method_file
  have hindex : (Graft.start file).file.methodIndex? "m" "()V" = some 0 := by decide +kernel
  have hfree : ((Graft.start file).history 0).replacedBy = none := by
    rw [Graft.history_start]
    rfl
  have hall : Grafting.redirectInAll named (redirection.edit true) callee callee (some .special)
      [0] 0 (.start file) = (.ok 1, between) :=
    ExceptT.bind_eq_ok.mpr ⟨1, between, hredirect, rfl⟩
  refine ExceptT.bind_eq_ok.mpr ⟨(0, ⟨"m", "()V"⟩), .start file,
    Grafting.target_eq_ok.mpr ⟨rfl, hindex, rfl⟩, ?_⟩
  refine ExceptT.bind_eq_ok.mpr ⟨.start file, .start file, ExceptT.get_eq_ok.mpr ⟨rfl, rfl⟩, ?_⟩
  simp only [hfree]
  exact ExceptT.bind_eq_ok.mpr ⟨1, between, hall, ExceptT.guard_eq_ok.mpr ⟨by decide, rfl⟩⟩

/-- The call in `m` becomes one of another kind, and nothing else changes. -/
theorem transforms_or_skips_named :
    redirection.IsAsked true file [] (.start file) named [] (.start file) ∧
      Grafting.apply named (redirection.edit true) (.start file) = (.ok (.applied
        (.redirected (redirection.edit true) (.method ⟨"m", "()V"⟩) 1)), between) ∧
      (∃ turns, (Graft.start file).Leads ([] ++ turns) (.start file) ∧
        turns.map (fun turn => (turn.patch, turn.edit)) = [].map (named, ·) ∧
        ∀ index body, (Graft.start file).body? index = some body → ∀ step ∈ body.steps,
          (body.isInitial step.mark = true ↔ ∃ first,
            file.firstBody? index ([] ++ turns) = some first ∧
              step.mark ∈ first.steps.map (·.mark))) ∧
      redirection.Transforms (named.targets (.start file)) (.start file) between ∧
      ((∀ index ∈ named.targets (.start file),
          ((Graft.start file).history index).replacedBy = none) →
        redirection.Fails true (named.targets (.start file)) (.start file) →
          ∃ fault, (Graft.start file).applyPatch named =
            (.start file, [⟨some named.id, .skipped fault⟩])) := by
  have hasked : redirection.IsAsked true file [] (.start file) named [] (.start file) :=
    ⟨⟨bytes, parse_eq⟩, .refl, ⟨[], rfl⟩, ⟨[], rfl⟩, isCallable, isCallable⟩
  obtain ⟨hmarks, htransforms, hfails⟩ :=
    Redirection.transforms_or_skips hasked fun hnone => nomatch hnone
  exact ⟨hasked, apply_named, hmarks, htransforms _ _ apply_named, hfails⟩

end Late

end ClassGraft
