import FragmentSynthesis.Layout
import FragmentSynthesis.Proofs.SameForms

namespace FragmentSynthesis.Proofs.RenderedOutlines

open FragmentSynthesis.Components
open FragmentSynthesis.Expression
open FragmentSynthesis.ExpressionText
open FragmentSynthesis.Faults
open FragmentSynthesis.Layout
open FragmentSynthesis.Operators
open FragmentSynthesis.Proofs.Outlines
open FragmentSynthesis.Proofs.SameForms
open FragmentSynthesis.Proofs.TokenReading
open FragmentSynthesis.Proofs.UniqueDecoding
open FragmentSynthesis.Statement
open FragmentSynthesis.StatementText
open FragmentSynthesis.StoppingChanges
open FragmentSynthesis.TokenTables
open FragmentSynthesis.TypeName
open FragmentSynthesis.TypeRefs

/-- The names of a component by its kind. A constructor is named for its type and the type
argument, which are shown with or without qualifiers. -/
def NamedByKind (c : Component) : Prop :=
  match c.kind with
  | .method | .field => ∃ type name : String,
      c.declaringType = some type ∧ c.name = some name ∧ c.simpleName = some name
  | .constructor => ∃ (type : String) (parameter : Option String), c.declaringType = some type ∧
      c.name = some (parameterized .qualified type parameter) ∧
      c.simpleName = some (parameterized .simple type parameter)
  | _ => c.declaringType = none ∧ c.name = none ∧ c.simpleName = none

theorem namedByKind_unregistered (r : Record) (parameter : Option TypeRef) :
    NamedByKind (unregistered r parameter) := by
  have hcomplete := r.complete
  cases hkind : r.kind with
  | method | field =>
      simp only [lack?, hkind, Kind.isArray] at hcomplete
      cases htype : r.declaringType <;> cases hname : r.name <;>
        simp_all [NamedByKind, unregistered, methodComponent, fieldComponent]
  | constructor =>
      simp only [lack?, hkind, Kind.isArray] at hcomplete
      cases htype : r.declaringType with
      | none => simp [htype] at hcomplete
      | some type =>
          simp only [NamedByKind, unregistered, hkind, constructorComponent, htype]
          exact ⟨type, parameter.map TypeRef.shown, rfl, rfl, rfl⟩
  | arrayGet | arraySet | arrayLength =>
      simp [NamedByKind, unregistered, hkind, arrayComponent]

theorem Issued.namedByKind {table : TokenTable} {c : Component} (h : Issued table c) :
    NamedByKind c := by
  induction h with
  | @record r table later parameter c h =>
      unfold ofRecord at h
      split at h
      · cases h
      · cases h
        exact namedByKind_unregistered r parameter
  | @array kind arrayType table c h =>
      cases kind <;> cases h <;> exact ⟨rfl, rfl, rfl⟩
  | later h key ih => exact ih

theorem parameterized_injective {type : String} {parameter other : Option String}
    (h : parameterized .qualified type parameter = parameterized .qualified type other) :
    parameter = other := by
  have hlist := congrArg String.toList h
  cases parameter <;> cases other <;>
    simp_all [parameterized, styled, ← String.toList_inj]

/-- No dash stands in the declaring type of a component. -/
def Undashed (c : Component) : Prop :=
  ∀ type, c.declaringType = some type → '-' ∉ type.toList

theorem Undashed.notMem_getD {c : Component} (h : Undashed c) :
    '-' ∉ (c.declaringType.getD "~").toList := by
  cases htype : c.declaringType with
  | none => decide
  | some type => exact h type htype

/-- The token of a component tells its names. They are those of its kind, since the component was
issued, and in the key they end where the type and its dash do. -/
structure TokenTells (table : TokenTable) (c : Component) : Prop where
  issued : Issued table c
  undashed : Undashed c

theorem names_of_key {c d : Component} (hc : Undashed c) (hd : Undashed d) (h : c.key = d.key) :
    c.kind = d.kind ∧ c.isStatic = d.isStatic ∧
      c.declaringType.getD "~" = d.declaringType.getD "~" ∧ shown c.name = shown d.name := by
  obtain ⟨hkind, harity, hstatic⟩ := structuralKey_inj h
  have hlist := congrArg String.toList h
  simp only [Component.key, hkind, harity, hstatic, toList_structuralKey, List.append_assoc,
    List.append_cancel_left_eq] at hlist
  simp only [List.cons_append] at hlist
  obtain ⟨htype, hname⟩ := separated_inj hc.notMem_getD hd.notMem_getD hlist
  have hname' := List.append_cancel_right hname
  exact ⟨hkind, hstatic, String.toList_inj.mp htype, String.toList_inj.mp hname'⟩

/-- Two components look alike wherever they are used. -/
structure SameDisplay (c d : Component) : Prop where
  kind_eq : c.kind = d.kind
  static_eq : c.isStatic = d.isStatic
  name_eq : c.displayName = d.displayName
  type_eq : c.displayType = d.displayType

theorem displayName_eq {c d : Component} (h : c.name = d.name) (h' : c.simpleName = d.simpleName) :
    c.displayName = d.displayName := by
  funext style
  cases style
  · exact congrArg shown h
  · exact congrArg shown h'

theorem displayType_eq {c d : Component} (h : c.declaringType = d.declaringType) :
    c.displayType = d.displayType := by
  funext style
  cases style
  · exact congrArg shown h
  · exact congrArg simpleName? h

theorem sameDisplay_of_key {c d : Component} (hc : NamedByKind c) (hd : NamedByKind d)
    (hundashed : Undashed c) (hundashed' : Undashed d) (h : c.key = d.key) : SameDisplay c d := by
  obtain ⟨hkind, hstatic, htype, hname⟩ := names_of_key hundashed hundashed' h
  unfold NamedByKind at hc hd
  rw [← hkind] at hd
  cases hk : c.kind with
  | method | field =>
      rw [hk] at hc hd
      obtain ⟨type, name, h₁, h₂, h₃⟩ := hc
      obtain ⟨type', name', h₁', h₂', h₃'⟩ := hd
      rw [h₁, h₁'] at htype
      rw [h₂, h₂'] at hname
      obtain rfl : type = type' := htype
      obtain rfl : name = name' := hname
      exact ⟨hkind, hstatic, displayName_eq (h₂.trans h₂'.symm) (h₃.trans h₃'.symm),
        displayType_eq (h₁.trans h₁'.symm)⟩
  | constructor =>
      rw [hk] at hc hd
      obtain ⟨type, parameter, h₁, h₂, h₃⟩ := hc
      obtain ⟨type', parameter', h₁', h₂', h₃'⟩ := hd
      rw [h₁, h₁'] at htype
      obtain rfl : type = type' := htype
      rw [h₂, h₂'] at hname
      obtain rfl := parameterized_injective hname
      exact ⟨hkind, hstatic, displayName_eq (h₂.trans h₂'.symm) (h₃.trans h₃'.symm),
        displayType_eq (h₁.trans h₁'.symm)⟩
  | arrayGet | arraySet | arrayLength =>
      rw [hk] at hc hd
      obtain ⟨h₁, h₂, h₃⟩ := hc
      obtain ⟨h₁', h₂', h₃'⟩ := hd
      exact ⟨hkind, hstatic, displayName_eq (h₂.trans h₂'.symm) (h₃.trans h₃'.symm),
        displayType_eq (h₁.trans h₁'.symm)⟩

theorem useText_congr {c d : Component} (h : SameDisplay c d) (style : NameStyle) :
    useText style c = useText style d := by
  obtain ⟨hkind, hstatic, hname, htype⟩ := h
  funext receiver array args
  simp only [useText, hkind, hstatic, hname, htype]

mutual

/-- The tokens of all components of an expression tell their names. -/
def TokensTell (table : TokenTable) : Expr → Prop
  | .literal _ _ => True
  | .variable _ _ => True
  | .unary _ operand => TokensTell table operand
  | .binary _ left right => TokensTell table left ∧ TokensTell table right
  | .use c none args => TokenTells table c ∧ EachTokensTell table args
  | .use c (some receiver) args =>
      TokenTells table c ∧ TokensTell table receiver ∧ EachTokensTell table args
  | .foreign _ => True

def EachTokensTell (table : TokenTable) : List Expr → Prop
  | [] => True
  | e :: rest => TokensTell table e ∧ EachTokensTell table rest

end

variable {table : TokenTable}

theorem sameDisplay_of_token {c d : Component} (hc : TokenTells table c) (hd : TokenTells table d)
    (h : c.token = d.token) : SameDisplay c d :=
  sameDisplay_of_key (Issued.namedByKind hc.issued) (Issued.namedByKind hd.issued) hc.undashed
    hd.undashed (hc.issued.listed.key_eq hd.issued.listed h)

variable (style : NameStyle)

/-- Expressions of one outline bind alike and have one text, or the same fault. -/
def SameText (e e' : Expr) : Prop :=
  precedence e = precedence e' ∧ render style e = render style e'

/-- The texts of arguments, and the array that the first of them may be. -/
def SameTexts (args args' : List Expr) : Prop :=
  renderEach style args = renderEach style args' ∧
    ∀ texts, arrayText args texts = arrayText args' texts

mutual

theorem sameText_of_outline (e e' : Expr) (he : Encodable table e) (he' : Encodable table e')
    (htell : TokensTell table e) (htell' : TokensTell table e') (h : outline e = outline e') :
    SameText style e e' := by
  have hform := sameForm_of_outline h
  cases e with
  | literal value type =>
      cases hform with
      | literal htext =>
          constructor
          · rw [precedence, precedence, htext]
          · exact htext
  | «variable» name type =>
      cases hform with
      | «variable» _ _ type' => exact ⟨rfl, rfl⟩
  | unary op operand =>
      cases hform with
      | @unary _ _ operand' hoperand =>
          obtain ⟨hprecedence, htext⟩ :=
            sameText_of_outline operand operand' he he' htell htell' hoperand
          exact ⟨rfl, by simp only [render, hprecedence, htext]⟩
  | binary op left right =>
      cases hform with
      | binary _ hleft hright =>
          obtain ⟨hprecedence, htext⟩ :=
            sameText_of_outline left _ he.1 he'.1 htell.1 htell'.1 hleft
          obtain ⟨hprecedence', htext'⟩ :=
            sameText_of_outline right _ he.2 he'.2 htell.2 htell'.2 hright
          exact ⟨rfl, by simp only [render, hprecedence, htext, hprecedence', htext']⟩
  | use c receiver args =>
      cases hform with
      | static htoken hargs =>
          have hc := sameDisplay_of_token htell.1 htell'.1 htoken
          obtain ⟨htexts, harray⟩ :=
            sameTexts_of_outline args _ he.2 he'.2 htell.2 htell'.2 hargs
          constructor
          · simp only [precedence, hc.kind_eq]
          · simp only [render, useText_congr hc, htexts, harray]
      | @onReceiver _ _ receiver _ _ _ htoken hreceiver hargs =>
          obtain ⟨-, he, heach⟩ := he
          obtain ⟨-, he', heach'⟩ := he'
          obtain ⟨hcomponent, htell, htells⟩ := htell
          obtain ⟨hcomponent', htell', htells'⟩ := htell'
          have hc := sameDisplay_of_token hcomponent hcomponent' htoken
          obtain ⟨hprecedence, htext⟩ :=
            sameText_of_outline receiver _ he he' htell htell' hreceiver
          obtain ⟨htexts, harray⟩ :=
            sameTexts_of_outline args _ heach heach' htells htells' hargs
          constructor
          · simp only [precedence, hc.kind_eq]
          · simp only [render, useText_congr hc, hc.kind_eq, hprecedence, htext, htexts, harray]
  | foreign f => exact he.elim

theorem sameTexts_of_outline (args args' : List Expr) (hargs : EachEncodable table args)
    (hargs' : EachEncodable table args') (htell : EachTokensTell table args)
    (htell' : EachTokensTell table args') (h : outlineEach args = outlineEach args') :
    SameTexts style args args' := by
  cases args with
  | nil =>
      cases args' with
      | nil => exact ⟨rfl, fun _ => rfl⟩
      | cons e' rest' => cases h
  | cons e rest =>
      cases args' with
      | nil => cases h
      | cons e' rest' =>
          obtain ⟨hfirst, hrest⟩ := List.cons.inj h
          obtain ⟨hprecedence, htext⟩ :=
            sameText_of_outline e e' hargs.1 hargs'.1 htell.1 htell'.1 hfirst
          obtain ⟨htexts, -⟩ :=
            sameTexts_of_outline rest rest' hargs.2 hargs'.2 htell.2 htell'.2 hrest
          constructor
          · rw [renderEach, renderEach, htext, htexts]
          · intro texts
            rw [arrayText, arrayText, hprecedence]

end

/-- An encoding tells all that the text of the test shows. -/
def TestSettled (table : TokenTable) : Test → Prop
  | .concrete e => TokensTell table e
  | .angelic remembered => remembered = none
  | .blank => True
  | .unknown => True

/-- A counter is declared in the header of its loop unless it is one of those declared outside. -/
def HeadSettled (outside : String → Bool) : LoopHead → Prop
  | .counting counter declared => declared = !outside counter
  | .testing _ => True

mutual

/-- Encodings leave nothing open of a statement that its text shows, but for its depth. Assignments
are to variables, open tests remember nothing, and the header of a loop follows from the counters
declared outside of loops. -/
def Settled (table : TokenTable) (outside : String → Bool) : Stmt → Prop
  | .assign _ (.variable _ _) value => TokensTell table value
  | .assign _ _ _ => False
  | .call _ function => TokensTell table function
  | .branch _ test body => TestSettled table test ∧ BlockSettled table outside body
  | .loop _ head test body =>
      HeadSettled outside head ∧ TestSettled table test ∧ BlockSettled table outside body
  | .foreach _ _ _ container body => TokensTell table container ∧ BlockSettled table outside body
  | .foreign _ => True

def BlockSettled (table : TokenTable) (outside : String → Bool) : List Stmt → Prop
  | [] => True
  | s :: rest => Settled table outside s ∧ BlockSettled table outside rest

end

mutual

/-- A statement stands at a depth, and the statements of its block one deeper. -/
def AtDepth (depth : Int) : Stmt → Prop
  | .assign indent _ _ => indent = depth
  | .call indent _ => indent = depth
  | .branch indent _ body => indent = depth ∧ BlockAtDepth (depth + 1) body
  | .loop indent _ _ body => indent = depth ∧ BlockAtDepth (depth + 1) body
  | .foreach indent _ _ _ body => indent = depth ∧ BlockAtDepth (depth + 1) body
  | .foreign _ => True

/-- All statements of a block stand at a depth. -/
def BlockAtDepth (depth : Int) : List Stmt → Prop
  | [] => True
  | s :: rest => AtDepth depth s ∧ BlockAtDepth depth rest

end

theorem renderTest_eq_of_outline (test test' : Test) (htest : TestEncodable table test)
    (htest' : TestEncodable table test') (hsettled : TestSettled table test)
    (hsettled' : TestSettled table test') (h : outlineTest test = outlineTest test') :
    renderTest style test = renderTest style test' := by
  cases testSameForm_of_outline htest htest' h with
  | concrete h => exact (sameText_of_outline style _ _ htest htest' hsettled hsettled' h).2
  | angelic remembered remembered' =>
      obtain rfl : remembered = none := hsettled
      obtain rfl : remembered' = none := hsettled'
      rfl

theorem loopHeader_eq {outside : String → Bool} {head head' : LoopHead}
    (hhead : HeadSettled outside head) (hhead' : HeadSettled outside head')
    (h : loopSymbol head = loopSymbol head') : loopHeader head = loopHeader head' := by
  funext test
  cases head with
  | counting counter declared =>
      cases head' with
      | counting counter' declared' =>
          obtain rfl : counter = counter' := Symbol.counting.inj h
          have hdeclared : declared = declared' := hhead.trans hhead'.symm
          rw [hdeclared]
      | testing counter' => cases h
  | testing counter =>
      cases head' with
      | counting counter' declared' => cases h
      | testing counter' => rfl

variable {outside : String → Bool}

mutual

theorem renderStmt_eq_of_outline (s s' : Stmt) {depth : Int} (hs : StmtEncodable table s)
    (hs' : StmtEncodable table s') (hsettled : Settled table outside s)
    (hsettled' : Settled table outside s') (hdepth : AtDepth depth s)
    (hdepth' : AtDepth depth s') (h : outlineStmt s = outlineStmt s') :
    renderStmt style s = renderStmt style s' := by
  have hform := stmtSameForm_of_outline h
  cases s with
  | assign indent target value =>
      cases hform with
      | @assign _ indent' _ target' _ value' htarget hvalue =>
          obtain rfl : indent = depth := hdepth
          obtain rfl : indent' = indent := hdepth'
          cases target with
          | «variable» name type =>
              cases sameForm_of_outline htarget with
              | «variable» _ _ type' =>
                  have htext := (sameText_of_outline style value value' hs.2 hs'.2 hsettled
                    hsettled' hvalue).2
                  simp only [renderStmt, targetName, htext]
          | _ => exact hsettled.elim
  | call indent function =>
      cases hform with
      | @call _ indent' _ function' hfunction =>
          obtain rfl : indent = depth := hdepth
          obtain rfl : indent' = indent := hdepth'
          have htext := (sameText_of_outline style function function' hs hs' hsettled hsettled'
            hfunction).2
          simp only [renderStmt, htext]
  | branch indent test body =>
      cases hform with
      | @branch _ indent' _ test' _ body' htests hbodies =>
          obtain ⟨rfl, hblock⟩ := hdepth
          obtain ⟨rfl, hblock'⟩ := hdepth'
          have htest := renderTest_eq_of_outline style test test' hs.1 hs'.1 hsettled.1
            hsettled'.1 htests
          have hbody := renderBlock_eq_of_outline body body' hs.2 hs'.2 hsettled.2 hsettled'.2
            hblock hblock' hbodies
          simp only [renderStmt, htest, hbody]
  | loop indent head test body =>
      cases hform with
      | @loop _ indent' _ head' _ test' _ body' hsymbol htests hbodies =>
          obtain ⟨rfl, hblock⟩ := hdepth
          obtain ⟨rfl, hblock'⟩ := hdepth'
          have hhead := loopHeader_eq hsettled.1 hsettled'.1 hsymbol
          have htest := renderTest_eq_of_outline style test test' hs.2.1 hs'.2.1 hsettled.2.1
            hsettled'.2.1 htests
          have hbody := renderBlock_eq_of_outline body body' hs.2.2 hs'.2.2 hsettled.2.2
            hsettled'.2.2 hblock hblock' hbodies
          simp only [renderStmt, hhead, htest, hbody]
  | foreach indent name type container body =>
      cases hform with
      | @foreach _ indent' _ _ _ container' _ body' hcontainers hbodies =>
          obtain ⟨rfl, hblock⟩ := hdepth
          obtain ⟨rfl, hblock'⟩ := hdepth'
          have hcontainer := (sameText_of_outline style container container' hs.2.1 hs'.2.1
            hsettled.1 hsettled'.1 hcontainers).2
          have hbody := renderBlock_eq_of_outline body body' hs.2.2 hs'.2.2 hsettled.2
            hsettled'.2 hblock hblock' hbodies
          simp only [renderStmt, hcontainer, hbody]
  | foreign f => exact hs.elim

theorem renderBlock_eq_of_outline (body body' : List Stmt) {depth : Int}
    (hbody : BlockEncodable table body) (hbody' : BlockEncodable table body')
    (hsettled : BlockSettled table outside body) (hsettled' : BlockSettled table outside body')
    (hdepth : BlockAtDepth depth body) (hdepth' : BlockAtDepth depth body')
    (h : outlineBlock body = outlineBlock body') :
    renderBlock style body = renderBlock style body' := by
  cases body with
  | nil =>
      cases body' with
      | nil => rfl
      | cons s' rest' => cases h
  | cons s rest =>
      cases body' with
      | nil => cases h
      | cons s' rest' =>
          obtain ⟨hfirst, hrest⟩ := List.cons.inj h
          have htext := renderStmt_eq_of_outline s s' hbody.1 hbody'.1 hsettled.1 hsettled'.1
            hdepth.1 hdepth'.1 hfirst
          have htexts := renderBlock_eq_of_outline rest rest' hbody.2 hbody'.2 hsettled.2
            hsettled'.2 hdepth.2 hdepth'.2 hrest
          rw [renderBlock, renderBlock, htext, htexts]

end

theorem none_of_change {α : Type} (old new : α) {stopped : Option Fault}
    (h : ((change old new).run stopped).2 = none) :
    stopped = none ∧ ((change old new).run stopped).1 = new := by
  cases stopped with
  | none => exact ⟨rfl, rfl⟩
  | some fault => cases h

theorem stop_ne_none (fault : Fault) (stopped : Option Fault) :
    ((stop fault).run stopped).2 ≠ none := by
  cases stopped <;> exact Option.some_ne_none _

mutual

theorem atDepth_layOut (s : Stmt) (depth : Int) (stopped : Option Fault)
    (h : ((layOut depth s).run stopped).2 = none) :
    stopped = none ∧ AtDepth depth ((layOut depth s).run stopped).1 := by
  cases s with
  | assign indent target value => exact none_of_change indent depth h
  | call indent function => exact none_of_change indent depth h
  | branch indent test body =>
      obtain ⟨hstopped, hblock⟩ := blockAtDepth_layOut body (depth + 1) _ h
      obtain ⟨rfl, hindent⟩ := none_of_change indent depth hstopped
      exact ⟨rfl, hindent, hblock⟩
  | loop indent head test body =>
      obtain ⟨hstopped, hblock⟩ := blockAtDepth_layOut body (depth + 1) _ h
      obtain ⟨rfl, hindent⟩ := none_of_change indent depth hstopped
      exact ⟨rfl, hindent, hblock⟩
  | foreach indent name type container body =>
      obtain ⟨hstopped, hblock⟩ := blockAtDepth_layOut body (depth + 1) _ h
      obtain ⟨rfl, hindent⟩ := none_of_change indent depth hstopped
      exact ⟨rfl, hindent, hblock⟩
  | foreign f =>
      cases f with
      | pass indent => exact (stop_ne_none _ _ h).elim
      | expression e => exact (stop_ne_none _ _ h).elim
      | other kind => exact (stop_ne_none _ _ h).elim

theorem blockAtDepth_layOut (body : List Stmt) (depth : Int) (stopped : Option Fault)
    (h : ((layOutBlock depth body).run stopped).2 = none) :
    stopped = none ∧ BlockAtDepth depth ((layOutBlock depth body).run stopped).1 := by
  cases body with
  | nil => exact ⟨h, trivial⟩
  | cons s rest =>
      obtain ⟨hstopped, hrest⟩ := blockAtDepth_layOut rest depth _ h
      obtain ⟨rfl, hfirst⟩ := atDepth_layOut s depth stopped hstopped
      exact ⟨rfl, hfirst, hrest⟩

end

end FragmentSynthesis.Proofs.RenderedOutlines
