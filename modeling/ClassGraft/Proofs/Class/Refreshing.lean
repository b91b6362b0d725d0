import ClassGraft.Class.Verification
import ClassGraft.Proofs.Class.Reanalysis

/-!
# Refreshing a class

`ClassFile.refresh` refreshes the bodies that are out of date one after the other, each of them
once, and only adds constants meanwhile (`ClassFile.isRefreshed_refresh`).  So a check of the class
analyzes each of them the way it was analyzed, and finds that it keeps within the sizes that were
stored (`ClassFile.verify_of_refresh`).
-/

namespace ClassGraft

/-! ### Constants of a table of frames -/

namespace Layout

open Interning

variable (layout : Layout)

theorem addsNames_typeBytes (type : FrameType) : AddsNames (layout.typeBytes type) := by
  cases type with
  | object name => exact .bind (.classBytes name) fun _ => .pure _
  | uninitialized mark => exact .bind (.lift _) fun _ => .pure _
  | _ => exact .pure _

theorem addsNames_typesBytes (types : List FrameType) : AddsNames (layout.typesBytes types) :=
  .bind (.mapM layout.addsNames_typeBytes types) fun _ => .pure _

theorem addsNames_countedTypes (types : List FrameType) :
    AddsNames (layout.countedTypes types) := by
  unfold countedTypes
  dsimp only
  split_ifs
  · exact .bind (.throw _) fun _ => .bind (layout.addsNames_typesBytes types) fun _ => .pure _
  · exact .bind (layout.addsNames_typesBytes types) fun _ => .pure _

theorem addsNames_changeBytes (distance : Nat) (change : FrameChange) :
    AddsNames (layout.changeBytes distance change) := by
  cases change with
  | same => exact .pure _
  | sameOne type => exact .bind (layout.addsNames_typeBytes type) fun _ => .pure _
  | chop count => exact .pure _
  | append types => exact .bind (layout.addsNames_typesBytes types) fun _ => .pure _
  | full locals stack =>
    exact .bind (layout.addsNames_countedTypes locals) fun _ =>
      .bind (layout.addsNames_countedTypes stack) fun _ => .pure _

theorem addsNames_frameEntries (frames : List (Nat × Mark × Option Frame))
    (previous : List FrameType) (before : Option Nat) :
    AddsNames (layout.frameEntries frames previous before) := by
  induction frames generalizing previous before with
  | nil => exact .pure _
  | cons row rest ih =>
    obtain ⟨index, mark, frame⟩ := row
    unfold frameEntries
    cases frame with
    | none => exact .throw _
    | some frame =>
      exact .bind (.lift _) fun offset => .bind (layout.addsNames_changeBytes _ _) fun entry =>
        .bind (ih _ _) fun others => .pure _

end Layout

theorem Body.addsNames_frameTable (body : Body) (frames : Array (Option Frame)) (entry : Frame)
    (layout : Layout) : Interning.AddsNames (body.frameTable frames entry layout) := by
  unfold frameTable
  dsimp only
  have hrest := Interning.AddsNames.bind (layout.addsNames_frameEntries
    ((body.needsFrame layout.landings).filterMap fun index =>
      (body.steps.toArray[index]?).map fun step => (index, step.mark, (frames[index]?).join))
    entry.listedLocals none) fun entries => .pure (some (Bytes.ofUInt16
      (UInt16.ofNat (body.needsFrame layout.landings).length) ++ entries.flatten))
  split_ifs
  · exact .pure none
  · exact .bind (.throw _) fun _ => hrest
  · exact hrest

theorem Body.addsNames_frameAttribute (body : Body) (frames : Array (Option Frame)) (entry : Frame)
    (layout : Layout) : Interning.AddsNames (body.frameAttribute frames entry layout) := by
  refine .bind (body.addsNames_frameTable frames entry layout) fun info => ?_
  cases info with
  | none => exact .pure none
  | some info =>
    dsimp only
    split
    · exact .pure _
    · exact .bind (.utf8Bytes _) fun _ => .pure _

theorem Body.onlyAdds_frameAttribute (body : Body) (frames : Array (Option Frame)) (entry : Frame)
    (layout : Layout) : Interning.OnlyAdds (body.frameAttribute frames entry layout) :=
  (body.addsNames_frameAttribute frames entry layout).onlyAdds

/-! ### The bodies of methods -/

namespace Method

variable {method : Method}

/-- What frames depend on does not change when constants are added. -/
theorem looseHead_of_head {pool later : Pool} {thisClass : Bytes} {head : MethodHead}
    (hg : pool.Grows later) (h : method.head pool thisClass = .ok head) :
    method.looseHead later thisClass = head := by
  unfold Method.head at h
  cases hname : pool.utf8 method.name with
  | none => simp [hname] at h
  | some name =>
    cases hdescriptor : pool.utf8 method.descriptor with
    | none => simp [hname, hdescriptor] at h
    | some descriptor =>
      simp only [hname, hdescriptor] at h
      obtain rfl := Except.ok.inj h
      rw [looseHead, hg.utf8 hname, hg.utf8 hdescriptor]
      rfl

/-- Whether the body has to be encoded again. -/
def isStale (method : Method) : Bool := method.body?.any fun body => body.encoded.isNone

end Method

/-! ### One body -/

/-- Whether a body was refreshed, and the pool grew to another one by it. -/
def Body.IsRefreshed (majorVersion : UInt16) (head : MethodHead) (hierarchy : Hierarchy)
    (pool later : Pool) (body body' : Body) : Prop :=
  ∃ analysis layout table encoded,
    body.analyze head pool hierarchy = .ok analysis ∧
    Layout.ofSteps pool (body.live analysis).steps = .ok layout ∧
    (if majorVersion < framesVersion then none = table ∧ pool = later
      else ∃ entry, head.entryFrame = .ok entry ∧
        (body.live analysis).frameAttribute analysis.liveFrames entry layout pool =
          (.ok table, later)) ∧
    (body.live analysis).bytes layout table = .ok encoded ∧
    { body.live analysis with encoded := some encoded } = body'

theorem Body.IsRefreshed.grown {majorVersion : UInt16} {head : MethodHead} {hierarchy : Hierarchy}
    {pool later : Pool} {body body' : Body}
    (h : body.IsRefreshed majorVersion head hierarchy pool later body') : pool.Extends later := by
  obtain ⟨analysis, layout, table, encoded, -, -, htable, -, -⟩ := h
  split_ifs at htable
  · rw [← htable.2]
    exact .refl pool
  · obtain ⟨entry, -, htable⟩ := htable
    exact (body.live analysis).onlyAdds_frameAttribute _ entry layout _ _ _ htable

/-- Whether the body of a method was refreshed, some time while a pool grew to another one. -/
def Method.IsRefreshed (majorVersion : UInt16) (thisClass : Bytes) (hierarchy : Hierarchy)
    (pool later : Pool) (method method' : Method) : Prop :=
  ∃ body head body' before after, pool.Grows before ∧ after.Grows later ∧
    method.body? = some body ∧ body.encoded = none ∧ method.head before thisClass = .ok head ∧
    body.IsRefreshed majorVersion head hierarchy before after body' ∧
    method' = method.withBody body'

theorem Method.IsRefreshed.of_grows {majorVersion : UInt16} {thisClass : Bytes}
    {hierarchy : Hierarchy} {pool later pool' later' : Pool} {method method' : Method}
    (h : method.IsRefreshed majorVersion thisClass hierarchy pool later method')
    (hg : pool'.Grows pool) (hg' : later.Grows later') :
    method.IsRefreshed majorVersion thisClass hierarchy pool' later' method' := by
  obtain ⟨body, head, body', before, after, hbefore, hafter, h⟩ := h
  exact ⟨body, head, body', before, after, hg.trans hbefore, hafter.trans hg', h⟩

namespace ClassFile

variable {file file' : ClassFile} {hierarchy : Hierarchy}

/-- What refreshing a body changes. -/
theorem refreshBody_spec {index : Nat} {head : MethodHead} {body : Body}
    (h : refreshBody index head hierarchy body file = (.ok (), file')) :
    ∃ body', body.IsRefreshed file.majorVersion head hierarchy file.pool file'.pool body' ∧
      file' = { file with
        pool := file'.pool
        methods := file.methods.modify index fun method => method.withBody body' } := by
  obtain ⟨analysis, layout, table, pool, encoded, hanalysis, hlayout, htable, hencoded, rfl⟩ :=
    refreshBody_eq_ok.mp h
  refine ⟨{ body.live analysis with encoded := some encoded },
    ⟨analysis, layout, table, encoded, hanalysis, hlayout, htable, hencoded, rfl⟩, ?_⟩
  unfold setBody modifyMethod
  rw [List.modify_modify_eq]
  congr 2
  funext method
  exact method.withBody_withBody _ _

end ClassFile

/-- A step in a method does what it does elsewhere. -/
theorem Refreshing.inMethod_eq_ok {α : Type} {method : String} {step : Refreshing α} {a : α}
    {file file' : ClassFile} :
    Refreshing.inMethod method step file = (.ok a, file') ↔ step file = (.ok a, file') :=
  ExceptT.rethrow_eq_ok

namespace ClassFile

variable {file between file' : ClassFile} {hierarchy : Hierarchy} {thisClass : Bytes}
  {now later : Nat → Prop}

/-- Whether a class was refreshed where methods were out of date among those that were looked at,
and nowhere else. -/
structure IsRefreshed (thisClass : Bytes) (hierarchy : Hierarchy) (now : Nat → Prop)
    (file file' : ClassFile) : Prop where
  grown : file.pool.Extends file'.pool
  others : file' = { file with pool := file'.pool, methods := file'.methods }
  length : file'.methods.length = file.methods.length
  stale : ∀ index, now index → file.isStale index = true → ∃ method method',
    file.methods[index]? = some method ∧ file'.methods[index]? = some method' ∧
      method.IsRefreshed file.majorVersion thisClass hierarchy file.pool file'.pool method'
  same : ∀ index, ¬(now index ∧ file.isStale index = true) →
    file'.methods[index]? = file.methods[index]?

theorem isRefreshed_refl (hn : ∀ index, now index → file.isStale index = false) :
    file.IsRefreshed thisClass hierarchy now file :=
  ⟨.refl _, rfl, rfl, fun index hi hs => absurd hs (by simp [hn index hi]), fun _ _ => rfl⟩

/-- Methods may be looked at in any parts, as long as none is looked at twice. -/
theorem IsRefreshed.trans (h : file.IsRefreshed thisClass hierarchy now between)
    (h' : between.IsRefreshed thisClass hierarchy later file')
    (hd : ∀ index, now index → ¬later index) :
    file.IsRefreshed thisClass hierarchy (fun index => now index ∨ later index) file' := by
  -- What comes later was not looked at before, so that it is as stale as it was at first.
  have hsame : ∀ index, later index → between.methods[index]? = file.methods[index]? :=
    fun index hl => h.same index fun hn => hd index hn.1 hl
  have hstale : ∀ index, later index → between.isStale index = file.isStale index := by
    intro index hl
    unfold isStale
    rw [hsame index hl]
  refine ⟨h.grown.trans h'.grown, ?_, h'.length.trans h.length, fun index hi hs => ?_,
    fun index hi => ?_⟩
  · rw [h'.others, h.others]
  · rcases hi with hn | hl
    · obtain ⟨method, method', hmethod, hmethod', hrefreshed⟩ := h.stale index hn hs
      refine ⟨method, method', hmethod, ?_, hrefreshed.of_grows (.refl _) h'.grown.grows⟩
      rw [h'.same index fun hl => hd index hn hl.1, hmethod']
    · obtain ⟨method, method', hmethod, hmethod', hrefreshed⟩ :=
        h'.stale index hl ((hstale index hl).trans hs)
      have hversion : between.majorVersion = file.majorVersion := by rw [h.others]
      rw [hversion] at hrefreshed
      exact ⟨method, method', (hsame index hl).symm.trans hmethod, hmethod',
        hrefreshed.of_grows h.grown.grows (.refl _)⟩
  · have hnow : ¬(now index ∧ file.isStale index = true) := fun hn => hi ⟨.inl hn.1, hn.2⟩
    have hlater : ¬(later index ∧ between.isStale index = true) := by
      rintro ⟨hl, hs⟩
      exact hi ⟨.inr hl, (hstale index hl).symm.trans hs⟩
    exact (h'.same index hlater).trans (h.same index hnow)

theorem exists_of_isStale {index : Nat} (h : file.isStale index = true) : ∃ method body,
    file.methods[index]? = some method ∧ method.body? = some body ∧ body.encoded = none := by
  unfold isStale at h
  cases hmethod : file.methods[index]? with
  | none => simp [hmethod] at h
  | some method =>
    rw [hmethod, Option.bind_some] at h
    obtain ⟨body, hbody, hencoded⟩ := (Option.any_eq_true _ _).mp h
    exact ⟨method, body, rfl, hbody, Option.isNone_iff_eq_none.mp hencoded⟩

/-- A method with a body that is out of date is refreshed. -/
theorem isRefreshed_refreshMethod {index : Nat} (hs : file.isStale index = true)
    (h : refreshMethod index thisClass hierarchy file = (.ok (), file')) :
    file.IsRefreshed thisClass hierarchy (· = index) file' := by
  obtain ⟨method, body, hmethod, hbody, hencoded⟩ := exists_of_isStale hs
  unfold refreshMethod at h
  obtain ⟨_, _, hget, h⟩ := ExceptT.bind_eq_ok.mp h
  obtain ⟨rfl, rfl⟩ := ExceptT.get_eq_ok.mp hget
  simp only [hmethod] at h
  obtain ⟨head, _, hlift, h⟩ := ExceptT.bind_eq_ok.mp (Refreshing.inMethod_eq_ok.mp h)
  obtain ⟨hhead, rfl⟩ := ExceptT.lift_eq_ok.mp hlift
  simp only [hbody, hencoded, Option.isNone_none, if_true] at h
  obtain ⟨body', hrefreshed, hfile⟩ := refreshBody_spec h
  have hmethods : file'.methods = file.methods.set index (method.withBody body') := by
    rw [hfile]
    show file.methods.modify index _ = _
    rw [List.modify_eq_set_getElem?, hmethod]
    rfl
  have hlt := (List.getElem?_eq_some_iff.mp hmethod).1
  refine ⟨hrefreshed.grown, ?_, ?_, ?_, fun other ho => ?_⟩
  · rw [hfile]
  · rw [hmethods, List.length_set]
  · rintro other rfl -
    refine ⟨method, method.withBody body', hmethod, ?_, body, head, body', file.pool, file'.pool,
      .refl _, .refl _, hbody, hencoded, hhead, hrefreshed, rfl⟩
    rw [hmethods, List.getElem?_set_self hlt]
  · -- The method itself is stale, so that one that is not looked at is another.
    have hne : index ≠ other := by
      rintro rfl
      exact ho ⟨rfl, hs⟩
    rw [hmethods, List.getElem?_set_ne hne]

/-- Methods that are looked at one after the other are each refreshed once. -/
theorem isRefreshed_refreshFrom {indices : List Nat} (hn : indices.Nodup) {count count' : Nat}
    (h : refreshFrom thisClass hierarchy indices count file = (.ok count', file')) :
    file.IsRefreshed thisClass hierarchy (· ∈ indices) file' := by
  induction indices generalizing file count with
  | nil =>
    obtain ⟨-, rfl⟩ := ExceptT.pure_eq_ok.mp h
    exact isRefreshed_refl (by simp)
  | cons index rest ih =>
    obtain ⟨hindex, hrest⟩ := List.nodup_cons.mp hn
    unfold refreshFrom at h
    obtain ⟨_, _, hget, h⟩ := ExceptT.bind_eq_ok.mp h
    obtain ⟨rfl, rfl⟩ := ExceptT.get_eq_ok.mp hget
    simp only [List.mem_cons]
    have hd : ∀ other, other = index → other ∉ rest := by
      rintro other rfl
      exact hindex
    split_ifs at h with hs
    · obtain ⟨_, between, hmethod, h⟩ := ExceptT.bind_eq_ok.mp h
      exact (isRefreshed_refreshMethod hs hmethod).trans (ih hrest h) hd
    · refine (isRefreshed_refl ?_).trans (ih hrest h) hd
      rintro other rfl
      exact Bool.not_eq_true _ ▸ hs

/-- Refreshing a class refreshes the bodies that are out of date. -/
theorem isRefreshed_refresh {count : Nat} (h : refresh hierarchy file = (.ok count, file')) :
    ∃ thisClass, file.name? = some thisClass ∧
      file.IsRefreshed thisClass hierarchy (fun _ => True) file' := by
  unfold refresh at h
  obtain ⟨_, _, hget, h⟩ := ExceptT.bind_eq_ok.mp h
  obtain ⟨rfl, rfl⟩ := ExceptT.get_eq_ok.mp hget
  cases hname : file.name? with
  | none => simp [hname, ExceptT.throw_ne_ok] at h
  | some thisClass =>
    simp only [hname] at h
    obtain ⟨hg, hothers, hlength, hstale, hsame⟩ := isRefreshed_refreshFrom List.nodup_range h
    have hin : ∀ index, file.isStale index = true → index ∈ List.range file.methods.length := by
      intro index hs
      obtain ⟨method, -, hmethod, -⟩ := exists_of_isStale hs
      exact List.mem_range.mpr (List.getElem?_eq_some_iff.mp hmethod).1
    exact ⟨thisClass, rfl, hg, hothers, hlength, fun index _ hs => hstale index (hin index hs) hs,
      fun index hi => hsame index fun hs => hi ⟨trivial, hs.2⟩⟩

end ClassFile

/-! ### Checking what was refreshed -/

theorem Body.maxLocals_live (body : Body) (analysis : Analysis) :
    (body.live analysis).maxLocals = analysis.maxLocals := by
  unfold live
  dsimp only
  split_ifs
  · rfl
  · rfl

/-- What was refreshed is analyzed again, also with more constants, and keeps within its sizes. -/
theorem Body.IsRefreshed.exists_analyze {majorVersion : UInt16} {head : MethodHead}
    {hierarchy : Hierarchy} {pool later last : Pool} {body body' : Body}
    (hn : (body.steps.map (·.mark)).Nodup)
    (h : body.IsRefreshed majorVersion head hierarchy pool later body') (hg : pool.Grows last) :
    ∃ analysis, body'.analyze head last hierarchy = .ok analysis ∧
      analysis.maxStack ≤ body'.maxStack ∧ analysis.maxLocals ≤ body'.maxLocals := by
  obtain ⟨analysis, layout, table, encoded, hanalysis, -, -, -, rfl⟩ := h
  obtain ⟨again, hagain, -, hstack, hlocals⟩ := analyze_live hn hg hanalysis
  -- the bytes of a body do not matter for its frames
  refine ⟨again, hagain, ?_, ?_⟩
  · rw [hstack]
    exact maxStack_le_live body analysis
  · show again.maxLocals ≤ (body.live analysis).maxLocals
    rw [maxLocals_live]
    exact hlocals

/-- A method that was refreshed is analyzed again as one of the class, and keeps within its
sizes. -/
theorem Method.IsRefreshed.exists_analyze {majorVersion : UInt16} {thisClass : Bytes}
    {hierarchy : Hierarchy} {pool later : Pool} {method method' : Method}
    (hn : ∀ body, method.body? = some body → (body.steps.map (·.mark)).Nodup)
    (h : method.IsRefreshed majorVersion thisClass hierarchy pool later method') :
    ∃ body analysis, method'.body? = some body ∧
      body.analyze (method'.looseHead later thisClass) later hierarchy = .ok analysis ∧
      analysis.maxStack ≤ body.maxStack ∧ analysis.maxLocals ≤ body.maxLocals := by
  obtain ⟨body, head, body', before, after, -, hafter, hbody, -, hhead, hrefreshed, rfl⟩ := h
  have hg := hrefreshed.grown.grows.trans hafter
  obtain ⟨analysis, hanalysis, hsizes⟩ := hrefreshed.exists_analyze (hn body hbody) hg
  refine ⟨body', analysis, body?_withBody method body', ?_, hsizes⟩
  have hloose : (method.withBody body').looseHead later thisClass = head :=
    looseHead_of_head hg hhead
  rw [hloose]
  exact hanalysis

/-- A method is not refused for its body if that is as it was, or keeps within its sizes. -/
theorem Method.bodyRefusal?_eq_none {pool : Pool} {thisClass : Bytes} {hierarchy : Hierarchy}
    {method : Method} (h : ∀ body, method.body? = some body → body.modified = true →
      ∃ analysis, body.analyze (method.looseHead pool thisClass) pool hierarchy = .ok analysis ∧
        analysis.maxStack ≤ body.maxStack ∧ analysis.maxLocals ≤ body.maxLocals) :
    method.bodyRefusal? pool thisClass hierarchy = none := by
  unfold bodyRefusal?
  refine Option.bind_eq_none_iff.mpr fun body hbody => ?_
  split_ifs with hm
  · rfl
  · obtain ⟨analysis, hanalysis, hstack, hlocals⟩ := h body hbody (by simpa using hm)
    simp only [hanalysis, UInt16.not_lt.mpr hstack, UInt16.not_lt.mpr hlocals, if_false,
      Option.map_none]

namespace ClassFile

variable {file file' : ClassFile} {hierarchy : Hierarchy}

/-- A class that was refreshed is refused for its references and members only, and what was
refreshed keeps within its sizes. -/
theorem verify_of_refresh {count : Nat}
    (hn : ∀ method ∈ file.methods, ∀ body, method.body? = some body →
      (body.steps.map (·.mark)).Nodup)
    (h : refresh hierarchy file = (.ok count, file')) :
    (∀ index, file.isStale index = true → ∃ method body thisClass analysis,
      file'.methods[index]? = some method ∧ method.body? = some body ∧
      file'.name? = some thisClass ∧
      body.analyze (method.looseHead file'.pool thisClass) file'.pool hierarchy = .ok analysis ∧
      analysis.maxStack ≤ body.maxStack ∧ analysis.maxLocals ≤ body.maxLocals) ∧
    ((∀ method ∈ file.methods, ∀ body, method.body? = some body → body.modified = true →
        body.encoded = none) →
      ∀ refusal, file'.verify hierarchy = .error refusal →
        file'.referenceRefusal? = some refusal ∨ file'.duplicateRefusal? = some refusal) := by
  obtain ⟨thisClass, hname, hg, hothers, hlength, hstale, hsame⟩ := isRefreshed_refresh h
  have hthis : file'.thisClass = file.thisClass := by rw [hothers]
  have hname' : file'.name? = some thisClass := by
    unfold name? at hname ⊢
    rw [hthis]
    exact hg.grows.className hname
  refine ⟨fun index hs => ?_, fun hm refusal hrefusal => ?_⟩
  · obtain ⟨method, method', hmethod, hmethod', hrefreshed⟩ := hstale index trivial hs
    obtain ⟨body, analysis, hbody, hanalysis⟩ :=
      hrefreshed.exists_analyze (hn method (List.mem_of_getElem? hmethod))
    exact ⟨method', body, thisClass, analysis, hmethod', hbody, hname', hanalysis⟩
  · have hbodies : file'.methods.findSome? (Method.bodyRefusal? file'.pool thisClass hierarchy) =
        none := by
      refine List.findSome?_eq_none_iff.mpr fun method' hin => ?_
      obtain ⟨index, hindex⟩ := List.mem_iff_getElem?.mp hin
      by_cases hs : file.isStale index = true
      · obtain ⟨method, _, hmethod, hmethod', hrefreshed⟩ := hstale index trivial hs
        obtain rfl := Option.some.inj (hmethod'.symm.trans hindex)
        obtain ⟨body, analysis, hbody, hanalysis⟩ :=
          hrefreshed.exists_analyze (hn method (List.mem_of_getElem? hmethod))
        refine Method.bodyRefusal?_eq_none fun other ho _ => ?_
        obtain rfl := Option.some.inj (hbody.symm.trans ho)
        exact ⟨analysis, hanalysis⟩
      · -- a body that is up to date was not changed
        rw [hsame index fun hi => hs hi.2] at hindex
        refine Method.bodyRefusal?_eq_none fun body hbody hmodified => absurd ?_ hs
        have hencoded := hm method' (List.mem_of_getElem? hindex) body hbody hmodified
        simp [isStale, hindex, hbody, hencoded]
    unfold verify at hrefusal
    split at hrefusal
    · rename_i found hfound
      obtain rfl := Except.error.inj hrefusal
      unfold refusal? at hfound
      simp only [hname', hbodies, Option.orElse_eq_orElse, Option.orElse_eq_or,
        Option.none_or] at hfound
      exact (Option.or_eq_some_iff.mp hfound).imp_right And.right
    · nomatch hrefusal

end ClassFile

/-! ### A method with code after its loop -/

namespace Idling

/-- The text of the class name, the class, and the name and the descriptor of its method. -/
def pool : Pool :=
  (((Pool.empty.push (.utf8 (Bytes.ofAscii "C")) (by decide)).push (.named .classRef 1)
    (by decide)).push (.utf8 (Bytes.ofAscii "m")) (by decide)).push (.utf8 (Bytes.ofAscii "()V"))
    (by decide)

/-- An instruction that jumps to itself. -/
def loop : Step := ⟨⟨5⟩, .jump Opcode.goto ⟨5⟩⟩

/-- A loop, and a return that is never reached. -/
def body : Body :=
  { Body.new 1 with steps := [loop, ⟨⟨6⟩, .plain Opcode.returnVoid⟩], nextMark := 7 }

def method : Method := ⟨8, 3, 4, [.code body]⟩

def file : ClassFile := ⟨0, 49, pool, 0, 2, 0, [], [], [method], []⟩

def head : MethodHead := ⟨Bytes.ofAscii "C", Bytes.ofAscii "m", Bytes.ofAscii "()V", true⟩

def frame : Frame := ⟨[], []⟩

def analysis : Analysis := ⟨#[some frame, none], 0, 0⟩

def layout : Layout :=
  ⟨[0xa7, 0x00, 0x00, 0xbf], ((∅ : Std.HashMap Mark Nat).insert ⟨5⟩ 0).insert ⟨6⟩ 3, []⟩

/-- The body as it is written, with a throw in place of the return. -/
def live : Body :=
  { body with
    maxStack := 1
    steps := [loop, ⟨⟨6⟩, .plain Opcode.athrow⟩] }

def encoded : Bytes := [0, 1, 0, 0] ++ [0, 0, 0, 4, 0xa7, 0, 0, 0xbf] ++ [0, 0] ++ [0, 0]

theorem analyze_eq : body.analyze head pool .unknown = .ok analysis := by
  let course : Course := body.plainCourse head pool .unknown
  have hd := body.declared_plainCourse head pool .unknown
  have hposition : course.scene.position ⟨5⟩ = .ok 0 :=
    Scene.position_eq_ok.mpr (@Body.getElem?_positions body (by decide) 0 loop rfl)
  have hsend : (Flow.start 2).send course 0 0 frame =
      .ok ⟨#[some frame, none], [0], #[true, false], 0⟩ := Flow.send_of_unreached (hd 0) rfl
  have hvisit : Flow.visit course 0 loop frame
      ⟨#[some frame, none], [], #[false, false], 0⟩ =
        .ok ⟨#[some frame, none], [], #[false, false], 0⟩ := by
    refine Flow.visit_eq_ok.mpr ⟨frame, _, _, rfl, rfl, ?_, rfl⟩
    exact Except.bind_eq_ok.mpr ⟨0, Except.mapError_eq_ok.mpr hposition,
      Except.bind_eq_ok.mpr ⟨_, Flow.send_of_same (hd 0) rfl rfl, rfl⟩⟩
  have hsettle : ∀ fuel, Flow.settle course (fuel + 1)
      ⟨#[some frame, none], [0], #[true, false], 0⟩ =
        .ok ⟨#[some frame, none], [], #[false, false], 0⟩ := by
    intro fuel
    refine (Flow.settle_of_visit hvisit rfl rfl (by rfl)).trans ?_
    exact Flow.settle_of_nil #[some frame, none] #[false, false] 0 fuel
  exact Body.analyze_of_settle rfl rfl (by decide) rfl hsend hsettle
    (Flow.le_budget (by decide)) (by simp) (by decide)

theorem live_eq : body.live analysis = live := by
  unfold Body.live
  have hdead : analysis.hasDeadCode = true := by simp [Analysis.hasDeadCode, analysis]
  rw [if_pos hdead, if_pos hdead]
  rfl

theorem ofSteps_eq : Layout.ofSteps pool live.steps = .ok layout := by
  unfold Layout.ofSteps
  rw [Layout.within]
  simp only [Draft.extend, live, loop, Draft.empty, Instruction.form, Site.jump,
    Std.HashMap.getElem?_insert_self]
  rfl

theorem bytes_eq : live.bytes layout none = .ok encoded := rfl

theorem exists_refreshBody :
    ∃ file', ClassFile.refreshBody 0 head .unknown body file = (.ok (), file') := by
  refine ⟨_, ClassFile.refreshBody_eq_ok.mpr ⟨analysis, layout, none, pool, encoded, analyze_eq,
    ?_, ?_, ?_, rfl⟩⟩
  · rw [live_eq]
    exact ofSteps_eq
  · rw [if_pos (by decide)]
    exact ⟨rfl, rfl⟩
  · rw [live_eq]
    exact bytes_eq

theorem exists_refresh :
    ∃ count file', ClassFile.refresh .unknown file = (.ok count, file') := by
  obtain ⟨file', hbody⟩ := exists_refreshBody
  have hmethod : ClassFile.refreshMethod 0 head.thisClass .unknown file = (.ok (), file') := by
    unfold ClassFile.refreshMethod
    refine ExceptT.bind_eq_ok.mpr ⟨file, file, rfl, Refreshing.inMethod_eq_ok.mpr ?_⟩
    exact ExceptT.bind_eq_ok.mpr ⟨head, file, rfl, hbody⟩
  refine ⟨1, file', ExceptT.bind_eq_ok.mpr ⟨file, file, rfl, ?_⟩⟩
  refine ExceptT.bind_eq_ok.mpr ⟨file, file, rfl, ?_⟩
  exact ExceptT.bind_eq_ok.mpr ⟨(), file', hmethod, rfl⟩

/-- The body is refreshed, and only needs to be checked for references and members. -/
theorem verify_of_refresh_idling :
    (∀ method ∈ file.methods, ∀ body, method.body? = some body →
      (body.steps.map (·.mark)).Nodup) ∧
    ∃ count file', ClassFile.refresh .unknown file = (.ok count, file') ∧
      (∀ index, file.isStale index = true → ∃ method body thisClass analysis,
        file'.methods[index]? = some method ∧ method.body? = some body ∧
        file'.name? = some thisClass ∧
        body.analyze (method.looseHead file'.pool thisClass) file'.pool .unknown = .ok analysis ∧
        analysis.maxStack ≤ body.maxStack ∧ analysis.maxLocals ≤ body.maxLocals) ∧
      ((∀ method ∈ file.methods, ∀ body, method.body? = some body → body.modified = true →
          body.encoded = none) →
        ∀ refusal, file'.verify .unknown = .error refusal →
          file'.referenceRefusal? = some refusal ∨ file'.duplicateRefusal? = some refusal) := by
  have hn : ∀ method ∈ file.methods, ∀ body, method.body? = some body →
      (body.steps.map (·.mark)).Nodup := by
    intro other ho found hf
    obtain rfl := List.mem_singleton.mp ho
    obtain rfl := Option.some.inj hf
    decide
  obtain ⟨count, file', h⟩ := exists_refresh
  exact ⟨hn, count, file', h, ClassFile.verify_of_refresh hn h⟩

end Idling

end ClassGraft
