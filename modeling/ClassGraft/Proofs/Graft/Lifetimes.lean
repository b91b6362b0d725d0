import ClassGraft.Proofs.Graft.Arrangement
import ClassGraft.Proofs.Graft.Precedence
import ClassGraft.Proofs.Graft.Succession

/-!
# The life of a body

From when a method gets a body until another one takes its place, edits and refreshes of the class
let it become others (`Turn.becomes`, `ClassFile.develops_refresh`), also a refresh that fails.  So
the marks of a body stay in order all its life, which may go back to the class that was read: none of
them is ever given to two instructions, and what tables and jumps refer to is there, but for labels
that templates do not define (`Graft.isAnchored_and_continues`).
-/

namespace ClassGraft

variable {used : Template → Prop}

/-! ### Steps of a refresh -/

/-- Whether a step leaves a property of the class as it is, also if it fails. -/
def Refreshing.Keeps {α : Type} (P : ClassFile → Prop) (step : Refreshing α) : Prop :=
  ∀ file, P file → P (step file).2

namespace Refreshing

variable {α β : Type} {P : ClassFile → Prop}

theorem keeps_pure (a : α) : Keeps P (pure a : Refreshing α) := fun _ h => h

theorem keeps_lift (x : Except Refusal α) : Keeps P (liftM x : Refreshing α) := fun _ h => h

theorem keeps_modify {f : ClassFile → ClassFile} (h : ∀ file, P file → P (f file)) :
    Keeps P (modify f : Refreshing PUnit) := h

theorem Keeps.bind {x : Refreshing α} {f : α → Refreshing β} (hx : Keeps P x)
    (hf : ∀ a, Keeps P (f a)) : Keeps P (x >>= f) := by
  intro file h
  have hfile := hx file h
  obtain ⟨result, later, hrun⟩ : ∃ result later, x file = (result, later) := ⟨_, _, rfl⟩
  have hbind : (x >>= f) file = ExceptT.bindCont f result later := by
    simp only [Bind.bind, ExceptT.bind, ExceptT.mk, StateT.bind, hrun]
  rw [hrun] at hfile
  rw [hbind]
  cases result with
  | error refusal => exact hfile
  | ok a => exact hf a later hfile

theorem snd_get_bind (f : ClassFile → Refreshing α) (file : ClassFile) :
    ((get >>= f) file).2 = (f file file).2 := rfl

theorem snd_ok_bind (a : α) (f : α → Refreshing β) (file : ClassFile) :
    ((liftM (.ok a : Except Refusal α) >>= f) file).2 = (f a file).2 := rfl

/-- A step that looks at the class is known to find the property. -/
theorem keeps_get_bind {f : ClassFile → Refreshing α} (h : ∀ file, P file → P (f file file).2) :
    Keeps P (get >>= f) := h

theorem keeps_intern {step : Interning α} (h : ∀ file pool, P file → P { file with pool := pool }) :
    Keeps P (intern step) := fun file hfile => h file _ hfile

/-- Where a fault happened is no part of the class. -/
theorem snd_inMethod (method : String) (step : Refreshing α) (file : ClassFile) :
    (inMethod method step file).2 = (step file).2 := by
  obtain ⟨result, later, hrun⟩ : ∃ result later, step file = (result, later) := ⟨_, _, rfl⟩
  rw [hrun]
  unfold inMethod
  simp only [tryCatch, tryCatchThe, MonadExceptOf.tryCatch, ExceptT.tryCatch, ExceptT.mk, bind,
    StateT.bind, hrun]
  cases result with
  | error refusal => rfl
  | ok a => rfl

end Refreshing

/-! ### Classes whose bodies become others -/

/-- Whether each body of a class has become one of another class, and all of those are of that
kind. -/
structure ClassFile.Develops (used : Template → Prop) (file later : ClassFile) : Prop where
  bodies : ∀ (index : Nat) (body : Body), (file.methods[index]?).bind Method.body? = some body →
    ∃ body', (later.methods[index]?).bind Method.body? = some body' ∧ body.Becomes used body'
  origins : ∀ method' ∈ later.methods, ∀ body', .code body' ∈ method'.attributes →
    ∃ method ∈ file.methods, ∃ body, .code body ∈ method.attributes ∧ body.Becomes used body'

namespace ClassFile

variable {file later last : ClassFile} {index : Nat} {body body' : Body}

theorem Develops.refl (file : ClassFile) : file.Develops used file :=
  ⟨fun _ body h => ⟨body, h, .refl⟩, fun method hm body hb => ⟨method, hm, body, hb, .refl⟩⟩

/-- Constants are no part of bodies. -/
theorem Develops.withPool (h : file.Develops used later) (pool : Pool) :
    file.Develops used { later with pool := pool } :=
  ⟨h.bodies, h.origins⟩

theorem Develops.trans (h : file.Develops used later) (h' : later.Develops used last) :
    file.Develops used last := by
  refine ⟨fun index body hbody => ?_, fun method' hm' body' hb' => ?_⟩
  · obtain ⟨between, hbetween, hbecomes⟩ := h.bodies index body hbody
    obtain ⟨body', hbody', hbecomes'⟩ := h'.bodies index between hbetween
    exact ⟨body', hbody', hbecomes.trans hbecomes'⟩
  · obtain ⟨between, hbetween, middle, hmiddle, hbecomes'⟩ := h'.origins method' hm' body' hb'
    obtain ⟨method, hm, body, hb, hbecomes⟩ := h.origins between hbetween middle hmiddle
    exact ⟨method, hm, body, hb, hbecomes.trans hbecomes'⟩

theorem body?_setBody (h : (file.methods[index]?).bind Method.body? = some body) (other : Body) :
    ((file.setBody index other).methods[index]?).bind Method.body? = some other := by
  obtain ⟨method, hmethod, -⟩ := Option.bind_eq_some_iff.mp h
  show ((file.methods.modify index _)[index]?).bind Method.body? = _
  rw [List.getElem?_modify_eq, hmethod]
  exact method.body?_withBody other

/-- A method gets what its body has become. -/
theorem develops_setBody (h : (file.methods[index]?).bind Method.body? = some body)
    (hb : body.Becomes used body') : file.Develops used (file.setBody index body') := by
  obtain ⟨method, hmethod, hbody⟩ := Option.bind_eq_some_iff.mp h
  refine ⟨fun other found hfound => ?_, fun changed hchanged found hfound => ?_⟩
  · by_cases hne : index = other
    · subst hne
      obtain rfl := Option.some.inj (h.symm.trans hfound)
      exact ⟨body', body?_setBody h body', hb⟩
    · refine ⟨found, ?_, .refl⟩
      have hbodies : (file.setBody index body').methods[other]? = file.methods[other]? :=
        List.getElem?_modify_ne _ _ hne
      rw [hbodies]
      exact hfound
  · rcases exists_of_mem_modify hchanged with hmem | ⟨old, hold, rfl⟩
    · exact ⟨changed, hmem, found, hfound, .refl⟩
    · rcases MethodAttribute.mem_setBody hfound with heq | hmem
      · obtain rfl := MethodAttribute.code.inj heq
        exact ⟨method, List.mem_of_getElem? hmethod, body, Method.mem_of_body? hbody, hb⟩
      · exact ⟨old, hold, found, hmem, .refl⟩

end ClassFile

/-! ### What a refresh leaves -/

/-- What is left without dead code has other sizes. -/
theorem Body.becomes_live {body : Body} {head : MethodHead} {pool : Pool} {hierarchy : Hierarchy}
    {analysis : Analysis} (h : body.analyze head pool hierarchy = .ok analysis) :
    body.Becomes used (body.live analysis) := by
  unfold Body.live
  dsimp only
  split_ifs with hdead
  · exact (Becomes.withoutDead h).trans (.keep rfl rfl rfl (Nat.le_refl _))
  · exact .keep rfl rfl rfl (Nat.le_refl _)

namespace ClassFile

open Refreshing

variable {file later : ClassFile} {index : Nat}

/-- What is left of a class while a body is written that another one has become. -/
structure IsLeft (used : Template → Prop) (file : ClassFile) (index : Nat) (live : Body)
    (later : ClassFile) : Prop where
  develops : file.Develops used later
  body : ∃ encoded, (later.methods[index]?).bind Method.body? =
    some { live with encoded := encoded }

/-- Writing a body leaves the class with it, whether or not it can be encoded. -/
theorem develops_writeLive {head : MethodHead} {body live : Body} {frames : Array (Option Frame)}
    (h : (file.methods[index]?).bind Method.body? = some body) (hb : body.Becomes used live) :
    file.Develops used (writeLive index head file live frames file).2 := by
  have hfirst : IsLeft used file index live (file.setBody index live) :=
    ⟨develops_setBody h hb, live.encoded, body?_setBody h live⟩
  -- Every step after the first one, failed or not, keeps the body where it was left.
  have hpool : ∀ later pool, IsLeft used file index live later →
      IsLeft used file index live { later with pool := pool } :=
    fun later pool hleft => ⟨hleft.develops.withPool pool, hleft.body⟩
  have hencode : ∀ encoded later, IsLeft used file index live later →
      IsLeft used file index live
        (later.setBody index { live with encoded := some encoded }) := by
    rintro encoded later ⟨hdevelops, old, hold⟩
    refine ⟨hdevelops.trans (develops_setBody hold ?_), some encoded, body?_setBody hold _⟩
    exact .keep rfl rfl rfl (Nat.le_refl _)
  have hbytes : ∀ layout table, Keeps (IsLeft used file index live) (do
      let encoded ← (liftM ((live.bytes layout table).mapError fun fault =>
        Refusal.ofFlaw (.file fault)) : Refreshing Bytes)
      modify (·.setBody index { live with encoded := some encoded })) :=
    fun layout table => (keeps_lift _).bind fun encoded => keeps_modify (hencode encoded)
  have hrest : Keeps (IsLeft used file index live) (do
      let layout ← (liftM ((Layout.ofSteps file.pool live.steps).mapError fun fault =>
        Refusal.ofFlaw (.file fault)) : Refreshing Layout)
      let table ←
        if file.majorVersion < framesVersion then pure none
        else do
          let entry ← liftM (head.entryFrame.mapError fun fault => Refusal.ofFlaw (.frames fault))
          Refreshing.intern (live.frameAttribute frames entry layout)
      let encoded ← (liftM ((live.bytes layout table).mapError fun fault =>
        Refusal.ofFlaw (.file fault)) : Refreshing Bytes)
      modify (·.setBody index { live with encoded := some encoded })) := by
    refine (keeps_lift _).bind fun layout => ?_
    split_ifs
    · exact (keeps_pure _).bind (hbytes layout)
    · exact (keeps_lift _).bind fun entry => (keeps_intern hpool).bind (hbytes layout)
  exact (hrest _ hfirst).develops

theorem develops_refreshBody {head : MethodHead} {hierarchy : Hierarchy} {body : Body}
    (h : (file.methods[index]?).bind Method.body? = some body) :
    file.Develops used (refreshBody index head hierarchy body file).2 := by
  rw [refreshBody_eq, snd_get_bind]
  cases hanalysis : body.analyze head file.pool hierarchy with
  | error obstacle => exact .refl file
  | ok analysis => exact develops_writeLive h (Body.becomes_live hanalysis)

theorem keeps_refreshMethod (origin : ClassFile) (index : Nat) (thisClass : Bytes)
    (hierarchy : Hierarchy) :
    Keeps (origin.Develops used) (refreshMethod index thisClass hierarchy) := by
  refine keeps_get_bind fun file h => ?_
  cases hmethod : file.methods[index]? with
  | none => exact h
  | some method =>
    refine h.trans ?_
    dsimp only
    rw [snd_inMethod]
    cases method.head file.pool thisClass with
    | error refusal => exact .refl file
    | ok head =>
      rw [snd_ok_bind]
      cases hbody : method.body? with
      | none => exact .refl file
      | some body =>
        dsimp only
        split_ifs
        · exact develops_refreshBody (Option.bind_eq_some_iff.mpr ⟨method, hmethod, hbody⟩)
        · exact .refl file

/-- Encoding bodies again, as far as that is possible, lets them become others. -/
theorem keeps_refreshFrom (origin : ClassFile) (thisClass : Bytes) (hierarchy : Hierarchy)
    (indices : List Nat) (count : Nat) :
    Keeps (origin.Develops used) (refreshFrom thisClass hierarchy indices count) := by
  induction indices generalizing count with
  | nil => exact keeps_pure _
  | cons index rest ih =>
    refine keeps_get_bind fun file h => ?_
    split_ifs
    · exact ((keeps_refreshMethod origin index thisClass hierarchy).bind fun _ => ih _) file h
    · exact ih _ file h

/-- What a refresh leaves, whatever it comes to. -/
theorem develops_refresh (file : ClassFile) (hierarchy : Hierarchy) :
    file.Develops used (refresh hierarchy file).2 := by
  have hkeeps : Keeps (file.Develops used) (refresh hierarchy) := by
    refine keeps_get_bind fun later h => ?_
    cases hname : later.name? with
    | none => exact h
    | some thisClass => exact keeps_refreshFrom file thisClass hierarchy _ _ later h
  exact hkeeps file (.refl file)

end ClassFile

/-! ### What edits make of a body -/

namespace Body.Becomes

variable {body : Body} {code : Template} {steps : List Step} {pool : Pool} {supply : Supply}

theorem insertAfter (hc : used code)
    (hs : code.steps ⟨body.nextMark, pool⟩ = (.ok steps, supply)) (anchor : Mark) :
    body.Becomes used ((Body.insertAfter { body with nextMark := supply.nextMark } anchor
      steps).getD { body with nextMark := supply.nextMark }) := by
  unfold Body.insertAfter
  cases Body.position? { body with nextMark := supply.nextMark } anchor with
  | none => exact unused hs
  | some index => exact .insert hc hs (.inl rfl) (index + 1)

theorem insertBefore (hc : used code)
    (hs : code.steps ⟨body.nextMark, pool⟩ = (.ok steps, supply)) (anchor : Mark)
    (redirect : Bool) :
    body.Becomes used ((Body.insertBefore { body with nextMark := supply.nextMark } anchor steps
      redirect).getD { body with nextMark := supply.nextMark }) := by
  unfold Body.insertBefore
  cases Body.position? { body with nextMark := supply.nextMark } anchor with
  | none => exact unused hs
  | some index =>
    cases redirect with
    | false => exact .insert hc hs (.inl rfl) index
    | true =>
      cases steps with
      | nil => exact .insert hc hs (.inl rfl) index
      | cons first rest =>
        exact .insert hc hs (.inr ⟨anchor, first, List.mem_cons_self, rfl⟩) index

/-- Whatever an anchor is, what is inserted there is a template. -/
theorem insertSteps (hc : used code)
    (hs : code.steps ⟨body.nextMark, pool⟩ = (.ok steps, supply)) (anchor : Anchor) (site : Mark)
    (history : MethodHistory) :
    body.Becomes used (Grafting.insertSteps anchor site steps
      { body with nextMark := supply.nextMark } history).1 := by
  cases anchor with
  | methodEntry =>
    unfold Grafting.insertSteps
    cases history.entryEnd with
    | some entryEnd => exact insertAfter hc hs entryEnd
    | none => exact insertBefore hc hs site false
  | afterCall call => exact insertAfter hc hs _
  | beforeReturn | beforeCall call | offset place | index number =>
    exact insertBefore hc hs site true

end Body.Becomes

/-- Whether the life of a body begins with a class: it is one of the class, or a new one. -/
def Body.BeginsIn (body : Body) (file : ClassFile) : Prop :=
  (∃ method ∈ file.methods, .code body ∈ method.attributes) ∨ ∃ name, body = Body.new name

/-- What edits make of the bodies of a class has become of one of these, or of a new one. -/
theorem Body.Grafted.exists_becomes {origin : ClassFile} {pool : Pool} {body : Body}
    (h : body.Grafted origin used pool) :
    ∃ first : Body, first.BeginsIn origin ∧ first.Becomes used body := by
  induction h with
  | read hm hb => exact ⟨_, .inl ⟨_, hm, hb⟩, .refl⟩
  | new hn => exact ⟨_, .inr ⟨_, rfl⟩, .refl⟩
  | constants h hp ih => exact ih
  | marks h hn ih =>
    obtain ⟨first, hfirst, hbecomes⟩ := ih
    exact ⟨first, hfirst, hbecomes.trans (.keep rfl rfl rfl hn)⟩
  | settle h he ih =>
    obtain ⟨first, hfirst, hbecomes⟩ := ih
    exact ⟨first, hfirst, hbecomes.trans (.keep rfl rfl rfl (Nat.le_refl _))⟩
  | replace h hc hs ih =>
    obtain ⟨first, hfirst, hbecomes⟩ := ih
    exact ⟨first, hfirst, hbecomes.trans (.replace hc hs)⟩
  | insert h hc hs index ih =>
    obtain ⟨first, hfirst, hbecomes⟩ := ih
    exact ⟨first, hfirst, hbecomes.trans (.insert hc hs (.inl rfl) index)⟩
  | insertBefore h hc hs ha ih =>
    obtain ⟨first, hfirst, hbecomes⟩ := ih
    exact ⟨first, hfirst,
      hbecomes.trans (.insert hc hs (.inr ⟨_, _, List.mem_cons_self, rfl⟩) _)⟩
  | redirect h hs ih =>
    obtain ⟨first, hfirst, hbecomes⟩ := ih
    exact ⟨first, hfirst, hbecomes.trans (.redirect hs)⟩

namespace Grafting

variable {graft later : Graft} {patch : Patch} {edit : Edit} {note : Note} {index : Nat}
  {body : Body}

theorem becomes_insertAtSites {anchor : Anchor} {code : Template} {sites : List Mark}
    {body' : Body} {history history' : MethodHistory} (hc : used code)
    (h : insertAtSites anchor code sites body history graft = (.ok (body', history'), later)) :
    body.Becomes used body' := by
  exact insertAtSites_induction (P := fun last _ _ => body.Becomes used last)
    (fun site _ middle history before steps supply hbefore hsteps =>
      hbefore.trans (Body.Becomes.insertSteps hc hsteps anchor site history)) .refl h

theorem becomes_insertAt {anchor : Anchor} {code : Template} (hc : used code)
    (hb : graft.body? index = some body)
    (h : insertAt patch edit anchor code graft = (.ok note, later)) :
    ∃ body', later.body? index = some body' ∧ body.Becomes used body' := by
  obtain ⟨other, method, hmethod, hother, hrun⟩ := insertAt_eq_ok h
  by_cases hindex : other = index
  · subst hindex
    rcases hrun with ⟨-, -, -, rfl⟩ | ⟨-, found, body', history, between, hfound, -, hsites, rfl⟩
    · exact ⟨body, hb, .refl⟩
    · obtain rfl := Option.some.inj (hb.symm.trans hfound)
      obtain ⟨pool, -, rfl⟩ := extends_insertAtSites hsites
      have hb' : (graft.withPool pool).body? other = some body := hb
      exact ⟨body', Graft.body?_setBody hb' body', becomes_insertAtSites hc hsites⟩
  · have hne := methodIndex?_ne hmethod hother hindex
    exact ⟨body, (spares_insertAt hne h).body body hb, .refl⟩

theorem becomes_replaceBody {code : Template} (hc : used code)
    (hb : graft.body? index = some body)
    (h : replaceBody patch edit code graft = (.ok note, later)) :
    ∃ body', later.body? index = some body' ∧ body.Becomes used body' := by
  obtain ⟨other, method, hmethod, hother, hrun⟩ := replaceBody_eq_ok h
  by_cases hindex : other = index
  · subst hindex
    rcases hrun with ⟨-, -, -, rfl⟩ | ⟨-, -, found, between, steps, supply, hfound, hsteps, rfl⟩
    · exact ⟨body, hb, .refl⟩
    · rcases bodyOrNew_eq_ok hfound with ⟨hsame, rfl⟩ | ⟨-, -, -, hnone, -⟩
      · obtain rfl := Option.some.inj (hb.symm.trans hsame)
        have hb' : (graft.withPool supply.pool).body? other = some body := hb
        exact ⟨_, Graft.body?_setBody hb' _, .replace hc hsteps⟩
      · cases hb.symm.trans hnone
  · have hne := methodIndex?_ne hmethod hother hindex
    exact ⟨body, (spares_replaceBody hne h).body body hb, .refl⟩

theorem becomes_redirectIn {callee replacement : MemberName} {kind : Option CallKind} {count : Nat}
    {other : Nat} (hb : graft.body? index = some body)
    (h : redirectIn patch edit callee replacement kind other graft = (.ok count, later)) :
    ∃ body', later.body? index = some body' ∧ body.Becomes used body' := by
  by_cases hindex : other = index
  · subst hindex
    rcases redirectIn_eq_ok h with ⟨-, rfl⟩ | ⟨found, steps, between, hfound, -, hsteps, rfl⟩
    · exact ⟨body, hb, .refl⟩
    · obtain rfl := Option.some.inj (hb.symm.trans hfound)
      obtain ⟨made, rfl, hmade⟩ := isRedirected_redirectSteps hsteps
      obtain ⟨pool, -, rfl⟩ := extends_redirectSteps hsteps
      have hb' : (graft.withPool pool).body? other = some body := hb
      exact ⟨_, Graft.body?_setBody hb' _, .redirect hmade⟩
  · exact ⟨body, (spares_redirectIn hindex h).body body hb, .refl⟩

theorem becomes_redirectInAll {callee replacement : MemberName} {kind : Option CallKind}
    {indices : List Nat} {count count' : Nat} (hb : graft.body? index = some body)
    (h : redirectInAll patch edit callee replacement kind indices count graft =
      (.ok count', later)) :
    ∃ body', later.body? index = some body' ∧ body.Becomes used body' := by
  refine redirectInAll_induction
    (P := fun last => ∃ body', last.body? index = some body' ∧ body.Becomes used body')
    (fun other _ before more after hbefore hstep => ?_) ⟨body, hb, .refl⟩ h
  obtain ⟨middle, hmiddle, hbecomes⟩ := hbefore
  obtain ⟨body', hbody', hbecomes'⟩ := becomes_redirectIn hmiddle hstep
  exact ⟨body', hbody', hbecomes.trans hbecomes'⟩

theorem becomes_redirectCall {callee replacement : MemberName} {kind : Option CallKind}
    {required : Bool} (hb : graft.body? index = some body)
    (h : redirectCall patch edit callee replacement kind required graft = (.ok note, later)) :
    ∃ body', later.body? index = some body' ∧ body.Becomes used body' := by
  rcases eq_or_of_redirectCall h with rfl | ⟨indices, count, hall⟩
  · exact ⟨body, hb, .refl⟩
  · exact becomes_redirectInAll hb hall

end Grafting

/-- Whether all templates of an edit are among some. -/
def Turn.Uses (used : Template → Prop) (turn : Turn) : Prop := ∀ code ∈ turn.edit.code?, used code

/-- A turn that does not put a method in place of another lets its body become another. -/
theorem Turn.becomes {turn : Turn} {index : Nat} {body : Body} (h : turn.IsValid)
    (hu : turn.Uses used) (ho : turn.overwrites index = false)
    (hb : turn.before.body? index = some body) :
    ∃ body', turn.after.body? index = some body' ∧ body.Becomes used body' := by
  have hvalid := h
  unfold IsValid at h
  unfold Uses at hu
  cases he : turn.edit with
  | addMethod access method code overwrite =>
    exact ⟨body, (Turn.spares_of_addMethod hvalid he ho).body body hb, .refl⟩
  | addField access field overwrite =>
    rw [he] at h
    exact ⟨body, (Grafting.spares_addField h).body body hb, .refl⟩
  | replaceBody code =>
    rw [he] at h hu
    exact Grafting.becomes_replaceBody (hu code rfl) hb h
  | insertAt anchor code =>
    rw [he] at h hu
    exact Grafting.becomes_insertAt (hu code rfl) hb h
  | redirectCall callee replacement kind required =>
    rw [he] at h
    exact Grafting.becomes_redirectCall hb h

/-! ### Edits and refreshes in any order -/

/-- Whether edits of some kind and refreshes lead from one class to another, in one run of patches or
in several. -/
inductive Graft.Passes (allowed : Turn → Prop) (graft : Graft) : Graft → Prop
  | refl : Passes allowed graft graft
  | turn {turn : Turn} (h : Passes allowed graft turn.before) (valid : turn.IsValid)
      (ha : allowed turn) : Passes allowed graft turn.after
  /-- A refresh, whatever it comes to. -/
  | refresh {later : Graft} {hierarchy : Hierarchy} {result : Except Refusal Nat}
      {file : ClassFile} (h : Passes allowed graft later)
      (hr : ClassFile.refresh hierarchy later.file = (result, file)) :
      Passes allowed graft { later with file := file }
  | restart {later : Graft} (h : Passes allowed graft later) :
      Passes allowed graft (.start later.file)

namespace Graft.Passes

variable {graft later : Graft}

/-- All bodies have become of those of the class from before, or of new ones. -/
theorem exists_becomes (h : graft.Passes (Turn.Uses used) later) :
    ∀ method ∈ later.file.methods, ∀ body, .code body ∈ method.attributes →
      ∃ first : Body, first.BeginsIn graft.file ∧ first.Becomes used body := by
  induction h with
  | refl => exact fun method hm body hb => ⟨body, .inl ⟨method, hm, hb⟩, .refl⟩
  | @turn turn h valid ha ih =>
    have hgrafted : turn.before.file.Grafted used turn.after.file :=
      Grafting.grafted_apply ha .read valid
    intro method hm body hb
    obtain ⟨middle, hmiddle, hbecomes⟩ := (hgrafted.bodies method hm body hb).exists_becomes
    rcases hmiddle with ⟨old, hold, hin⟩ | hnew
    · obtain ⟨first, hfirst, hbecomes'⟩ := ih old hold middle hin
      exact ⟨first, hfirst, hbecomes'.trans hbecomes⟩
    · exact ⟨middle, .inr hnew, hbecomes⟩
  | @refresh later hierarchy result file h hr ih =>
    have hdevelops : later.file.Develops used file := by
      have hleft : later.file.Develops used (ClassFile.refresh hierarchy later.file).2 :=
        ClassFile.develops_refresh later.file hierarchy
      rwa [hr] at hleft
    intro method hm body hb
    obtain ⟨old, hold, middle, hmiddle, hbecomes⟩ := hdevelops.origins method hm body hb
    obtain ⟨first, hfirst, hbecomes'⟩ := ih old hold middle hmiddle
    exact ⟨first, hfirst, hbecomes'.trans hbecomes⟩
  | restart h ih => exact ih

/-- A body that no other takes the place of becomes another. -/
theorem becomes {index : Nat} {body : Body}
    (h : graft.Passes (fun turn => turn.Uses used ∧ turn.overwrites index = false) later)
    (hb : graft.body? index = some body) :
    ∃ body', later.body? index = some body' ∧ body.Becomes used body' := by
  induction h with
  | refl => exact ⟨body, hb, .refl⟩
  | turn h valid ha ih =>
    obtain ⟨between, hbetween, hbecomes⟩ := ih
    obtain ⟨body', hbody', hbecomes'⟩ := Turn.becomes valid ha.1 ha.2 hbetween
    exact ⟨body', hbody', hbecomes.trans hbecomes'⟩
  | @refresh later hierarchy result file h hr ih =>
    obtain ⟨between, hbetween, hbecomes⟩ := ih
    have hdevelops : later.file.Develops used file := by
      have hleft : later.file.Develops used (ClassFile.refresh hierarchy later.file).2 :=
        ClassFile.develops_refresh later.file hierarchy
      rwa [hr] at hleft
    obtain ⟨body', hbody', hbecomes'⟩ := hdevelops.bodies index between hbetween
    exact ⟨body', hbody', hbecomes.trans hbecomes'⟩
  | restart h ih => exact ih

end Graft.Passes

/-- What the life of a body begins with is anchored. -/
theorem Body.BeginsIn.isAnchored {bytes : Bytes} {file : ClassFile} {first : Body}
    (h : first.BeginsIn file) (hf : ClassFile.parse bytes = .ok file) : first.IsAnchored [] := by
  rcases h with ⟨method, hm, hb⟩ | ⟨name, rfl⟩
  · obtain ⟨-, cursor, next, hread⟩ :=
      ((ClassFile.isParsed_of_parse hf).methods method hm).attributes (.code first) hb
    exact Body.isAnchored_of_read hread
  · exact Body.isAnchored_new name

/-- The life of a body begins in the class that was read or with a new body, and goes on whatever
edits and refreshes there are, as long as no other body takes its place.  All its life its marks are
in order.  Those of its instructions are distinct and below the next one.  No mark was given to two
instructions: an instruction is one that the body began with, or one of a template, but for its
targets, the method that it calls, and code that was not reached.  Its tables mention its own
instructions.  So do its jumps, but for those of a template to a label that it does not define,
whose mark was reserved for it and never given to an instruction. -/
theorem Graft.isAnchored_and_continues {bytes : Bytes} {file : ClassFile} {earlier later : Graft}
    {index : Nat} {body : Body} (hf : ClassFile.parse bytes = .ok file)
    (he : (Graft.start file).Passes (Turn.Uses used) earlier)
    (hb : earlier.body? index = some body)
    (hl : earlier.Passes (fun turn => turn.Uses used ∧ turn.overwrites index = false) later) :
    ∃ (first : Body) (past : List Template.Use), first.BeginsIn file ∧ first.Lives past body ∧
      ∃ body' more, later.body? index = some body' ∧ body.Lives more body' ∧
        (∀ use ∈ past ++ more, used use.template) ∧ body'.IsAnchored (past ++ more) ∧
        first.Continues (past ++ more) body' ∧ body.Continues more body' := by
  obtain ⟨method, hmethod, hbody⟩ := Option.bind_eq_some_iff.mp hb
  obtain ⟨first, hfirst, past, hpast, hlives⟩ := he.exists_becomes method
    (List.mem_of_getElem? hmethod) body (Method.mem_of_body? hbody)
  obtain ⟨body', hbody', more, hmore, hlives'⟩ := hl.becomes hb
  have hanchored := hfirst.isAnchored hf
  have hnumbered : first.IsNumbered := ⟨hanchored.nodup, hanchored.below⟩
  have hwhole := hlives.trans hlives'
  exact ⟨first, past, hfirst, hlives, body', more, hbody', hlives',
    List.forall_mem_append.mpr ⟨hpast, hmore⟩, hwhole.isAnchored hanchored,
    hwhole.continues hnumbered, hlives'.continues (hlives.isNumbered hnumbered)⟩

/-! ### A jump to a label that is missing -/

namespace Straying

open Dangling (classOf complete returning complete_spec)

/-- A jump to a label that the template does not define. -/
def code : Template := [.jump Opcode.goto "nowhere"]

def edit : Edit := .insertAt .methodEntry code

/-- Has the method `n` jump as soon as it is entered. -/
def patch : Patch := ⟨"straying", "C", some ⟨"n", "()V"⟩, 0, [edit]⟩

/-- The jump has the mark 1, and the label 2. -/
theorem steps_eq (pool : Pool) :
    code.steps ⟨1, pool⟩ = (.ok [⟨⟨1⟩, .jump Opcode.goto ⟨2⟩⟩], ⟨3, pool⟩) := by
  have htarget : Template.target ∅ "nowhere" ⟨2, pool⟩ =
      (.ok (⟨2⟩, Std.HashMap.insert ∅ "nowhere" ⟨2⟩), ⟨3, pool⟩) := by
    unfold Template.target
    rw [Std.HashMap.getElem?_empty]
    rfl
  have hline : Template.instruction ∅ (.jump Opcode.goto "nowhere") ⟨2, pool⟩ =
      (.ok (some (.jump Opcode.goto ⟨2⟩), Std.HashMap.insert ∅ "nowhere" ⟨2⟩), ⟨3, pool⟩) :=
    ExceptT.bind_eq_ok.mpr ⟨_, _, htarget, rfl⟩
  have hfrom : Template.stepsFrom 1 ∅ [] code ⟨2, pool⟩ =
      (.ok [⟨⟨1⟩, .jump Opcode.goto ⟨2⟩⟩], ⟨3, pool⟩) :=
    ExceptT.bind_eq_ok.mpr ⟨_, _, hline, rfl⟩
  exact hfrom

/-- The body of `n` with the jump. -/
def strayed : Body := { returning with
  nextMark := 3
  steps := ⟨⟨1⟩, .jump Opcode.goto ⟨2⟩⟩ :: returning.steps
  encoded := none
  modified := true }

def turn : Turn where
  patch := patch
  edit := edit
  before := .start (classOf complete)
  note := .applied (.inserted edit ⟨"n", "()V"⟩ 1)
  after := ⟨(classOf complete).setBody 1 strayed,
    (Graft.start (classOf complete)).histories.insert 1 ⟨none, ["straying"], some ⟨1⟩, ∅⟩⟩

theorem body?_start : (Graft.start (classOf complete)).body? 1 = some returning := by
  obtain ⟨-, -, hmethods, -⟩ := complete_spec
  show ((classOf complete).methods[1]?).bind Method.body? = _
  rw [hmethods]
  rfl

theorem isValid_turn : turn.IsValid := by
  obtain ⟨-, -, -, hn, -⟩ := complete_spec
  have hmethod : patch.method = some ⟨"n", "()V"⟩ := rfl
  have hindex : (Graft.start (classOf complete)).file.methodIndex? "n" "()V" = some 1 := hn
  have hsites : returning.sites (classOf complete).pool .methodEntry = [⟨0⟩] := rfl
  have hmade : Grafting.insertSteps .methodEntry ⟨0⟩ [⟨⟨1⟩, .jump Opcode.goto ⟨2⟩⟩]
      { returning with nextMark := 3 } .untouched = (strayed, ⟨none, [], some ⟨1⟩, ∅⟩) := rfl
  exact Grafting.insertAt_of_site hmethod hindex (Graft.history_start (classOf complete) 1) rfl
    body?_start hsites (steps_eq _) hmade

/-- The class as a refresh leaves it, which cannot find where the jump leads. -/
def later : Graft :=
  { turn.after with file := (ClassFile.refresh .unknown turn.after.file).2 }

theorem isAnchored_and_continues_later :
    ClassFile.parse complete = .ok (classOf complete) ∧
      (Graft.start (classOf complete)).body? 1 = some returning ∧
      (Graft.start (classOf complete)).Passes
        (fun turn => turn.Uses (· = code) ∧ turn.overwrites 1 = false) later ∧
      ∃ (first : Body) (past : List Template.Use), first.BeginsIn (classOf complete) ∧
        first.Lives past returning ∧
        ∃ body' more, later.body? 1 = some body' ∧ returning.Lives more body' ∧
          (∀ use ∈ past ++ more, use.template = code) ∧ body'.IsAnchored (past ++ more) ∧
          first.Continues (past ++ more) body' ∧ returning.Continues more body' := by
  have huses : turn.Uses (· = code) := by
    intro found hfound
    have hcode : turn.edit.code? = some code := rfl
    rw [hcode] at hfound
    exact (Option.mem_some_iff.mp hfound).symm
  have hpasses : (Graft.start (classOf complete)).Passes
      (fun turn => turn.Uses (· = code) ∧ turn.overwrites 1 = false) later :=
    .refresh (.turn .refl isValid_turn ⟨huses, rfl⟩) rfl
  exact ⟨complete_spec.1, body?_start, hpasses,
    Graft.isAnchored_and_continues complete_spec.1 .refl body?_start hpasses⟩

end Straying

end ClassGraft
