import Testbus.Schema.Scopes

namespace Testbus.Schema.Build

open Lib Noted Xml Environ

variable {type : XsType}

section Operations

variable {around : Surroundings}

/-- The types in a reference that there is or is not. -/
def refTypes (found : Option Ref) : List XsType := (found.map Ref.type).toList

abbrev noTypes {α : Type} : α → List XsType := fun _ => []

theorem lasts_readName (node : Node) : Lasts well noTypes (readName node) around s := by
  unfold readName
  cases node.name with
  | none => exact lasts_stops (fun named => named rfl) nofun
  | some name => exact lasts_fine nofun (lasts_pure nofun)

theorem lasts_lookup (name : CString) : Lasts well Option.toList (lookup name) around s := by
  refine lasts_ask (lasts_get ?_)
  by_cases colon : 58 ∈ name
  · simp only [if_pos colon]
    by_cases none_ : tokens name = []
    · simp only [if_pos none_]
      refine lasts_noted (fun fine => ?_) fun harm => ?_
      · rw [if_pos (fine colon none_)]
        exact lasts_pure nofun
      · rw [if_neg fun empty => harm fun _ _ => empty]
        exact nofun
    · simp only [if_neg none_]
      refine lasts_fine (fun _ empty => absurd empty none_) (lasts_known fun lasting type found _ => ?_)
      obtain ⟨inner, below, member⟩ := lookupPath_below (Option.mem_toList.mp found)
      exact lasting.lookup below member
  · simp only [if_neg colon]
    refine lasts_fine (fun inside => absurd inside colon) (lasts_known fun lasting type found _ => ?_)
    obtain ⟨scope, member, found⟩ := List.exists_of_findSome?_eq_some (Option.mem_toList.mp found)
    exact lasting scope member scope (.self _) type (List.mem_append_left _ (lookupLocal_mem found))

theorem lasts_typedef (name : CString) (held : well → Held (scopesOf around s) type) :
    Lasts well noTypes (typedef name type) around s := by
  refine lasts_get ?_
  split
  · exact lasts_pure nofun
  refine lasts_modify (fun here lasting => ?_) (lasts_pure nofun)
  refine stays_change lasting rfl (List.subset_append_left _ _) rfl fun other member => ?_
  rcases List.mem_append.mp member with entry | used
  · rw [List.map_append, List.mem_append, List.map_singleton, List.mem_singleton] at entry
    rcases entry with old | rfl
    · exact .inl (List.mem_append_left _ old)
    · refine .inr (((held here).mono fun _ => live_entry).setCommon ?_)
      rintro origdef ⟨⟩
      cases defined : type.common.origdef with
      | some origdef => exact live_entry ((held_iff.mp (held here)).1 origdef defined)
      | none => exact ⟨_, List.mem_cons_self, _, .self _, rfl, by simp⟩
  · exact .inl (List.mem_append_right _ used)

theorem lasts_cloneAndRelease (held : well → Held (scopesOf around s) ref.type) :
    Lasts well (fun ref => [ref.type]) (cloneAndRelease ref) around s := by
  refine lasts_noted (fun fine => ?_) fun harm => ?_
  · split
    · exact lasts_pure (List.forall_mem_singleton.mpr held)
    · next shared =>
      rw [if_neg (by simp [fine.resolve_left shared])]
      exact lasts_pure (List.forall_mem_singleton.mpr fun here => (held here).setCommon nofun)
  · obtain ⟨shared, void⟩ := not_or.mp harm
    rw [if_neg shared, if_pos (by simpa using void)]
    exact nofun

theorem lasts_getChild (name : CString) (children : List Node) :
    Lasts well noTypes (getChild name children) around s := by
  induction children generalizing s well with
  | nil => exact lasts_pure nofun
  | cons child rest ih =>
    refine (lasts_readName child).bind fun own s' _ _ => ?_
    split
    · exact lasts_pure nofun
    · exact ih

theorem lasts_getDescription (node : Node) : Lasts well noTypes (getDescription node) around s := by
  unfold getDescription
  split
  · exact lasts_pure nofun
  · exact (lasts_getChild _ _).bind fun _ _ _ _ => lasts_pure nofun

theorem lasts_setDescription (held : well → Held (scopesOf around s) ref.type) (node : Node) :
    Lasts well (fun ref => [ref.type]) (setDescription ref node) around s := by
  have held : AllHeld well around s [ref.type] := List.forall_mem_singleton.mpr held
  refine (lasts_getDescription node).bind fun description s' stays _ => ?_
  split
  · exact lasts_pure (stays.held held)
  · refine (lasts_cloneAndRelease (stays.held held _ List.mem_cons_self)).bind fun ref s'' _ held => ?_
    refine lasts_pure (List.forall_mem_singleton.mpr fun here => ?_)
    exact (held _ List.mem_cons_self here).changed rfl

theorem lasts_intmapBuild (attrName : CString) (lastValue : UInt32) (children : List Node) :
    Lasts well noTypes (intmapBuild attrName lastValue children) around s := by
  induction children generalizing lastValue s well with
  | nil => exact lasts_pure nofun
  | cons child rest ih =>
    unfold intmapBuild
    cases child.getAttr attrName with
    | none =>
      exact (lasts_readName child).bind fun _ _ _ _ => (ih _).bind fun _ _ _ _ => lasts_pure nofun
    | some text =>
      dsimp only
      split
      · exact lasts_pure nofun
      · exact (lasts_readName child).bind fun _ _ _ _ => (ih _).bind fun _ _ _ _ => lasts_pure nofun

theorem lasts_buildRangeConstraint (node : Node) : Lasts well noTypes (buildRangeConstraint node) around s := by
  unfold buildRangeConstraint
  split
  · next min max => exact lasts_fine ⟨min, max⟩ (lasts_pure nofun)
  · next bounded => exact lasts_stops (fun fine => bounded fine.1 fine.2) nofun

theorem lasts_groupGet (groups : Option (List Group)) (relation : Relation) (name : CString) :
    Lasts well noTypes (groupGet groups relation name) around s := by
  cases groups with
  | none => exact lasts_stops (fun present => present rfl) nofun
  | some groups =>
    refine lasts_fine nofun ?_
    dsimp only
    split
    · exact lasts_pure nofun
    · exact lasts_get (lasts_modify (fun _ lasting => ⟨fun _ => id, lasting⟩) (lasts_pure nofun))

end Operations

section Constraints

variable {around : Surroundings} {ref : Ref} (node : Node) (groups : Option (List Group))
  (held : well → Held (scopesOf around s) ref.type)

abbrev Constrained.built (constrained : Constrained) : List XsType := refTypes constrained.ref

include held

theorem lasts_constrainGroup (relation : Relation) (name : CString) :
    Lasts well Constrained.built (constrainGroup relation name ref groups) around s := by
  unfold constrainGroup
  split
  · exact lasts_pure nofun
  refine (lasts_groupGet groups relation name).bind fun found s' stays _ => ?_
  have held := stays.held (List.forall_mem_singleton.mpr held)
  refine lasts_pure (List.forall_mem_singleton.mpr fun here => ?_)
  exact (held _ List.mem_cons_self here).changed rfl

omit held in
theorem lasts_constrainScalar (value : CString) (held : well → Held (scopesOf around s) (.scalar common info)) :
    Lasts well Option.toList (constrainScalar node value common info) around s := by
  have own {well' : Prop} {s' : Building} (stays : Carries well well' around s s')
      (info' : ScalarInfo) (here : well') : Held (scopesOf around s') (.scalar common info') :=
    held_iff.mpr ⟨fun origdef defined => (stays here).2.scopes
      ((held_iff.mp (held (stays here).1)).1 origdef defined), nofun⟩
  have mapped {well' : Prop} {s' : Building} (stays : Carries well well' around s s')
      (map : Option IntMap) (change : IntMap → ScalarInfo) :
      AllHeld well' around s' (map.map fun map => XsType.scalar common (change map)).toList := by
    cases map with
    | none => exact nofun
    | some map => exact List.forall_mem_singleton.mpr (own stays _)
  unfold constrainScalar
  split
  · exact (lasts_intmapBuild _ _ _).bind fun map _ stays _ => lasts_pure (mapped stays map _)
  split
  · exact (lasts_intmapBuild _ _ _).bind fun map _ stays _ => lasts_pure (mapped stays map _)
  split
  · exact (lasts_buildRangeConstraint node).bind fun _ _ stays _ =>
      lasts_pure (List.forall_mem_singleton.mpr (own stays _))
  · exact lasts_pure (List.forall_mem_singleton.mpr held)

theorem lasts_buildConstraint (value : CString) :
    Lasts well Constrained.built (buildConstraint node value ref groups) around s := by
  unfold buildConstraint
  split
  · exact lasts_pure (List.forall_mem_singleton.mpr fun here => (held here).changed rfl)
  split
  · exact lasts_constrainGroup groups held _ _
  split
  · exact lasts_constrainGroup groups held _ _
  split
  · next common info same =>
    rw [same] at held
    refine (lasts_constrainScalar node value held).bind fun type _ _ held => ?_
    refine lasts_pure fun other member => ?_
    cases type with
    | none => nomatch member
    | some type => exact held other member
  · exact lasts_pure (List.forall_mem_singleton.mpr held)

theorem lasts_buildConstraints (attrs : List NiVar) :
    Lasts well Constrained.built (buildConstraints node attrs ref groups) around s := by
  induction attrs generalizing ref groups s well with
  | nil => exact lasts_pure (List.forall_mem_singleton.mpr held)
  | cons attr rest ih =>
    unfold buildConstraints
    split
    · exact ih groups held
    refine (lasts_cloneAndRelease held).bind fun ref s' _ held => ?_
    cases attr.value with
    | none => exact lasts_stops (fun present => present rfl) nofun
    | some value =>
      refine lasts_fine nofun ?_
      refine (lasts_buildConstraint node groups (held _ List.mem_cons_self) _).bind fun constrained s'' _ held => ?_
      split
      · exact lasts_pure held
      · next ref same =>
        rw [Constrained.built, same] at held
        exact ih constrained.groups (held _ List.mem_cons_self)

end Constraints

section Types

/-- What is made of the children of an element keeps all definitions. -/
structure Content.Lasting (content : Content) : Prop where
  typelist : ∀ {well : Prop} allowAnon list around s, AllHeld well around s list.built →
    Lasts well Typelist.built (content.typelist allowAnon list) around s
  oneType : ∀ {well : Prop} around s, Lasts well refTypes content.oneType around s

variable {content : Content} (lasting : content.Lasting) (node : Node) {around : Surroundings}

theorem lasts_baseType : Lasts well (fun base => (base.bind id).toList) (baseType node) around s := by
  unfold baseType
  split
  · exact lasts_pure allHeld_nil
  · refine (lasts_lookup _).bind fun found s' _ held => lasts_pure ?_
    cases found with
    | none => exact allHeld_nil
    | some type => exact held

/-- The members of a type that is extended. -/
theorem inherited_held (held : AllHeld well around s [type]) :
    AllHeld well around s type.components := fun component member here =>
  (held_iff.mp (held _ List.mem_cons_self here)).2 component member

include lasting

theorem lasts_buildStruct : Lasts well Option.toList (buildStruct content node) around s := by
  have members {well : Prop} {s' : Building} (inherited : Members)
      (held : AllHeld well around s' (inherited.map Prod.snd)) :
      Lasts well Option.toList (buildStruct.members content inherited) around s' := by
    refine (lasting.typelist true { members := inherited } around s' held).bind fun list s'' _ held => ?_
    split
    · exact lasts_pure (held_bare held rfl)
    · exact lasts_pure nofun
  refine (lasts_baseType node).bind fun base s' _ held => ?_
  split
  · exact lasts_pure nofun
  split
  · exact members _ (inherited_held held)
  · exact lasts_pure nofun
  · exact members [] nofun

theorem lasts_buildUnion : Lasts well Option.toList (buildUnion content node) around s := by
  unfold buildUnion
  split
  · exact lasts_pure allHeld_nil
  refine (lasting.typelist true { members := [] } around s allHeld_nil).bind fun list s' _ held => ?_
  split
  · exact lasts_pure (held_bare held rfl)
  · exact lasts_pure allHeld_nil

omit lasting in
theorem lasts_arrayNotation (elementType : XsType) : Lasts well noTypes (arrayNotation node elementType) around s := by
  refine lasts_ask ?_
  split
  · split
    · exact lasts_pure nofun
    split <;> exact lasts_pure nofun
  · exact lasts_pure nofun

theorem lasts_arrayElementType : Lasts well Option.toList (arrayElementType content node) around s := by
  unfold arrayElementType
  split
  · exact lasts_lookup _
  · exact (lasting.oneType around s).bind fun _ _ _ held => lasts_pure held

theorem lasts_buildArray : Lasts well Option.toList (buildArray content node) around s := by
  refine (lasts_arrayElementType lasting node).bind fun elementType s' _ held => ?_
  split
  · exact lasts_pure nofun
  refine (lasts_arrayNotation node _).bind fun form s'' stays _ => ?_
  split
  · exact lasts_pure nofun
  · exact lasts_pure (held_bare (stays.held held) rfl)

theorem lasts_buildDict : Lasts well Option.toList (buildDict content node) around s := by
  have members {well : Prop} {s' : Building} (inherited : Members)
      (held : AllHeld well around s' (inherited.map Prod.snd)) :
      Lasts well Option.toList (buildDict.members content inherited) around s' := by
    refine (lasting.typelist false { members := inherited, groups := some [] } around s' held).bind
      fun list s'' _ held => ?_
    split
    · exact lasts_pure (held_bare held rfl)
    · exact lasts_pure nofun
  refine (lasts_baseType node).bind fun base s' _ held => ?_
  split
  · exact lasts_pure nofun
  split
  · exact members _ (inherited_held held)
  · exact lasts_pure nofun
  · exact members [] nofun

theorem lasts_buildClass (className : CString) :
    Lasts well Option.toList (buildClass content node className) around s := by
  unfold buildClass
  split
  · exact lasts_buildStruct lasting node
  split
  · exact lasts_buildUnion lasting node
  split
  · exact lasts_buildArray lasting node
  split
  · exact lasts_buildDict lasting node
  split
  · exact lasts_pure (held_bare allHeld_nil rfl)
  · exact lasts_pure nofun

theorem lasts_buildComplexType (className : CString) :
    Lasts well refTypes (buildComplexType content node className) around s := by
  refine (lasts_buildClass lasting node className).bind fun type s' _ held => ?_
  split
  · exact lasts_pure nofun
  · exact (lasts_setDescription (held _ List.mem_cons_self) node).bind fun _ _ _ held =>
      lasts_pure held

omit lasting

theorem lasts_collectMeta (meta_ : Option Node) (children : List Node) :
    Lasts well noTypes (collectMeta meta_ children) around s := by
  induction children generalizing meta_ s well with
  | nil => exact lasts_pure nofun
  | cons child rest ih =>
    unfold collectMeta
    split
    · exact ih _
    refine (lasts_readName child).bind fun name _ _ _ => ?_
    split
    · exact ih _
    · exact ih _

theorem lasts_buildSimpleType (typeName : CString) (groups : Option (List Group)) :
    Lasts well Constrained.built (buildSimpleType node typeName groups) around s := by
  refine (lasts_lookup typeName).bind fun type s' _ held => ?_
  split
  · exact lasts_pure nofun
  refine (lasts_buildConstraints node groups (held _ List.mem_cons_self) _).bind fun constrained s'' _ held => ?_
  split
  · exact lasts_pure held
  next ref same =>
  refine (lasts_collectMeta _ _).bind fun meta_ s₃ stays _ => ?_
  split
  · exact lasts_pure (stays.held held)
  · rw [Constrained.built, same] at held
    refine (lasts_cloneAndRelease (stays.held held _ List.mem_cons_self)).bind fun ref s₄ _ held => ?_
    refine lasts_pure (List.forall_mem_singleton.mpr fun here => ?_)
    exact (held _ List.mem_cons_self here).changed rfl

end Types

variable {list : Typelist}

section Definitions

variable {content : Content} (lasting : content.Lasting) (node : Node) {around : Surroundings}

include lasting

theorem lasts_definedType (name : CString) : Lasts well refTypes (definedType content node name) around s := by
  unfold definedType
  split
  · exact lasts_inNamedScope (lasts_buildComplexType lasting node _)
  · exact (lasts_inNamedScope (lasts_buildSimpleType node _ none)).bind fun _ _ _ held =>
      lasts_pure held
  · exact lasting.oneType around s

omit lasting in
theorem lasts_setConstant (name value : CString) : Lasts well noTypes (setConstant name value) around s :=
  ⟨exact_modify _, fun _ lasting => keeps_modify ⟨stays_change lasting rfl (List.Subset.refl _) rfl fun _ => .inl, nofun⟩⟩

theorem lasts_processDefine : Lasts well noTypes (processDefine content node) around s := by
  unfold processDefine
  split
  · exact lasts_pure allHeld_nil
  split
  · exact lasts_pure allHeld_nil
  split
  · exact lasts_pure allHeld_nil
  split
  · exact (lasts_setConstant _ _).bind fun _ _ _ _ => lasts_pure allHeld_nil
  refine (lasts_definedType lasting node _).bind fun ref s' _ held => ?_
  split
  · exact lasts_pure allHeld_nil
  · exact (lasts_setDescription (held _ List.mem_cons_self) node).bind fun ref _ _ held =>
      lasts_typedef _ (held _ List.mem_cons_self)

omit lasting in
theorem lasts_append (name : Option CString)
    (held : AllHeld well around s list.built) (held' : well → Held (scopesOf around s) type) :
    Lasts well Typelist.built (append node list name type) around s := by
  refine (lasts_getDescription node).bind fun _ s' stays _ => lasts_pure ?_
  intro other member
  rw [Typelist.built, List.map_append, List.mem_append] at member
  rcases member with old | new
  · exact stays.held held other old
  · exact stays.held (List.forall_mem_singleton.mpr held') other new

theorem lasts_memberType (groups : Option (List Group)) :
    Lasts well Constrained.built (memberType content node groups) around s := by
  unfold memberType
  split
  · exact (lasts_buildComplexType lasting node _).bind fun _ _ _ held => lasts_pure held
  · exact lasts_buildSimpleType node _ _
  · exact lasts_pure nofun

/-- A member crashes if and only if it has neither a class nor a type. -/
theorem lasts_joinMember (name : CString) (held : AllHeld well around s list.built) :
    Lasts well Typelist.built (joinMember content node name list) around s := by
  unfold joinMember
  by_cases typed : hasClassOrType node = true
  · refine lasts_fine typed ((lasts_inNamedScope (lasts_memberType lasting node list.groups)).bind
      fun constrained s' stays built => ?_)
    have held := stays.held held
    unfold appendMember
    split
    · next ref same =>
      rw [Constrained.built, same] at built
      exact lasts_append node _ held (built _ List.mem_cons_self)
    · rw [if_pos typed]
      exact lasts_pure held
  · refine lasts_stops typed ?_
    obtain ⟨noClass, noType⟩ : attr node "class" = none ∧ attr node "type" = none := by
      simpa [hasClassOrType] using typed
    have typeless : memberType content node list.groups = pure ⟨none, list.groups⟩ := by
      rw [memberType, noClass, noType]
    rw [typeless]
    rintro ⟨value, s', ended⟩
    change (appendMember node name list none _ _).2 = _ at ended
    rw [appendMember, if_neg typed] at ended
    cases ended

theorem lasts_buildMember (allowAnon : Bool) (held : AllHeld well around s list.built) :
    Lasts well Typelist.built (buildMember content node allowAnon list) around s := by
  unfold buildMember
  split
  · exact lasts_pure held
  split
  · refine (lasts_processDefine lasting node).bind fun done s' stays _ => ?_
    split <;> exact lasts_pure (stays.held held)
  split
  · exact lasts_pure held
  split
  · refine (lasts_inTempScope (lasts_buildComplexType lasting node _)).bind fun found s' stays built => ?_
    split
    · exact lasts_pure (stays.held held)
    · exact lasts_append node _ (stays.held held) (built _ List.mem_cons_self)
  refine (lasts_lookup _).bind fun found s' stays built => ?_
  split
  · split
    · exact lasts_pure (stays.held held)
    split
    · exact lasts_pure (stays.held held)
    · exact lasts_append node _ (stays.held held) (built _ List.mem_cons_self)
  · split
    · exact lasts_pure (stays.held held)
    refine (lasts_lookup _).bind fun again s'' stays' _ => ?_
    split
    · exact lasts_pure (stays'.held (stays.held held))
    · exact lasts_joinMember lasting node _ (stays'.held (stays.held held))

theorem lasts_anonymousType (name : CString) : Lasts well Option.toList (anonymousType content node name) around s := by
  unfold anonymousType
  split
  · exact lasts_inTempScope ((lasts_buildComplexType lasting node name).bind fun _ _ _ held =>
      lasts_pure held)
  · exact lasts_lookup name

omit lasting

theorem lasts_buildTypelist (lastings : ∀ child ∈ children, child.2.Lasting) (allowAnon : Bool) (held : AllHeld well around s list.built) :
    Lasts well Typelist.built (buildTypelist children allowAnon list) around s := by
  induction children generalizing list s well with
  | nil => exact lasts_pure held
  | cons child rest ih =>
    obtain ⟨first, later⟩ := List.forall_mem_cons.mp lastings
    refine (lasts_buildMember first child.1 allowAnon held).bind fun list s' _ held => ?_
    split
    · exact ih later held
    · exact lasts_pure held

theorem lasts_buildOneType (lastings : ∀ child ∈ children, child.2.Lasting) (held : AllHeld well around s result.toList) :
    Lasts well refTypes (buildOneType result children) around s := by
  induction children generalizing result s well with
  | nil =>
    refine lasts_pure ?_
    cases result with
    | none => exact nofun
    | some type => exact held
  | cons child rest ih =>
    obtain ⟨first, later⟩ := List.forall_mem_cons.mp lastings
    refine (lasts_readName child.1).bind fun name s' stays _ => ?_
    split
    · refine (lasts_processDefine first child.1).bind fun done s'' stays' _ => ?_
      split
      · exact ih later (stays'.held (stays.held held))
      · exact lasts_pure nofun
    split
    · exact ih later (stays.held held)
    split
    · exact lasts_pure nofun
    refine (lasts_anonymousType first child.1 name).bind fun found s'' _ held => ?_
    split
    · exact lasts_pure nofun
    · exact ih later held

end Definitions

mutual

/-- What is made of the children of any node keeps all definitions, by induction on the nodes. -/
theorem lasting_contentOf : ∀ node, (contentOf node).Lasting
  | .mk _ _ _ children _ =>
    { typelist := fun allowAnon _ _ _ held =>
        lasts_buildTypelist (lasting_contents children) allowAnon held
      oneType := fun _ _ => lasts_buildOneType (lasting_contents children) nofun }

theorem lasting_contents : ∀ children, ∀ child ∈ contents children, child.2.Lasting
  | [] => nofun
  | child :: rest => List.forall_mem_cons.mpr ⟨lasting_contentOf child, lasting_contents rest⟩

end

section Services

variable {around : Surroundings}

theorem lasts_eachChild (built : α → List XsType)
    (each : ∀ (well : Prop) child a s, AllHeld well around s (built a) →
      Lasts well (fun result => built result.2) (process child a) around s)
    (children : List Node) (held : AllHeld well around s (built a)) :
    Lasts well (fun result => built result.2) (eachChild process children a) around s := by
  induction children generalizing a s well with
  | nil => exact lasts_pure held
  | cons child rest ih =>
    refine (each _ child a s held).bind fun result s' _ held => ?_
    dsimp only
    split
    · exact ih held
    · exact lasts_pure held

variable {method : Method}

theorem arguments_held (held : AllHeld well around s method.types) (held' : AllHeld well around s list.built) :
    AllHeld well around s { method with arguments := list.members }.types := by
  intro type member
  rcases List.mem_append.mp member with new | old
  · exact held' type new
  · exact held type (List.mem_append_right _ old)

theorem lasts_arguments (child : Node) (held : AllHeld well around s method.types) :
    Lasts well Typelist.built (inTempScope Typelist.built
      ((contentOf child).typelist true { members := method.arguments })) around s :=
  lasts_inTempScope ((lasting_contentOf child).typelist true _ _ _
    (AllHeld.inside (fun type member => held type (List.mem_append_left _ member)) none))

theorem lasts_methodChild (child : Node) (held : AllHeld well around s method.types) :
    Lasts well (fun result => result.2.types) (methodChild child method) around s := by
  unfold methodChild
  split
  · exact (lasts_arguments child held).bind fun list s' stays held' =>
      lasts_pure (arguments_held (stays.held held) held')
  split
  · refine (lasts_inTempScope ((lasting_contentOf child).oneType _ _)).bind fun found s' stays held' => ?_
    have held := stays.held held
    split
    · exact lasts_pure held
    · refine lasts_pure fun type member => ?_
      rcases List.mem_append.mp member with old | new
      · exact held type (List.mem_append_left _ old)
      · exact held' type new
  split
  · exact lasts_pure held
  split
  · exact lasts_pure held
  refine (lasts_readName child).bind fun name s' stays _ => ?_
  split <;> exact lasts_pure (stays.held held)

theorem lasts_signalChild (child : Node) (held : AllHeld well around s signal.types) :
    Lasts well (fun result => result.2.types) (signalChild child signal) around s := by
  unfold signalChild
  split
  · exact (lasts_arguments child held).bind fun list s' stays held' =>
      lasts_pure (arguments_held (stays.held held) held')
  split <;> exact lasts_pure held

theorem lasts_processMethod (each : ∀ (well : Prop) child method s, AllHeld well around s method.types →
      Lasts well (fun result => result.2.types) (process child method) around s) (node : Node) :
    Lasts well (fun result => result.2.flatMap Method.types) (processMethod process node) around s := by
  unfold processMethod
  split
  · exact lasts_pure allHeld_nil
  · refine (lasts_eachChild Method.types each node.children allHeld_nil).bind fun result s' _ held => ?_
    exact lasts_pure (by simpa using held)

theorem lasts_serviceChild (child : Node) (held : AllHeld well around s service.types) :
    Lasts well (fun result => result.2.types) (serviceChild child service) around s := by
  refine (lasts_readName child).bind fun name s' stays _ => ?_
  have held := stays.held held
  split
  · exact (lasts_processDefine (lasting_contentOf child) child).bind fun _ _ stays _ =>
      lasts_pure (stays.held held)
  split
  · refine (lasts_processMethod (fun _ child _ _ => lasts_methodChild child) child).bind
      fun result s'' stays added => lasts_pure ?_
    have held := stays.held held
    simp only [AllHeld, Service.types, List.flatMap_append, List.forall_mem_append] at held added ⊢
    exact ⟨⟨held.1, added⟩, held.2⟩
  split
  · refine (lasts_processMethod (fun _ child _ _ => lasts_signalChild child) child).bind
      fun result s'' stays added => lasts_pure ?_
    have held := stays.held held
    simp only [AllHeld, Service.types, List.flatMap_append, List.forall_mem_append] at held added ⊢
    exact ⟨held.1, held.2, added⟩
  split <;> exact lasts_pure held

theorem lasts_processService (node : Node) : Lasts well noTypes (processService node) around s := by
  unfold processService
  split
  · split
    · exact lasts_pure nofun
    refine (lasts_inNamedScope (lasts_eachChild Service.types
      (fun _ child _ _ => lasts_serviceChild child) _ allHeld_nil)).bind fun result s' _ held => ?_
    refine lasts_modify (fun here lasting => ?_) (lasts_pure nofun)
    refine stays_change lasting rfl (List.Subset.refl _) rfl fun type member => ?_
    simp only [Scope.roots, List.flatMap_append, List.mem_append] at member
    rcases member with old | old | new
    · exact .inl (List.mem_append_left _ old)
    · exact .inl (List.mem_append_right _ old)
    · refine .inr ((held type (by simpa using new) here).mono fun _ live => ?_)
      exact live_changed live rfl (List.Subset.refl _) rfl
  · exact lasts_pure nofun

theorem lasts_processClass (node : Node) : Lasts well noTypes (processClass node) around s := by
  unfold processClass
  split
  · exact lasts_pure allHeld_nil
  split
  · exact lasts_pure allHeld_nil
  · refine lasts_modify (fun here lasting => ?_) (lasts_pure allHeld_nil)
    exact stays_change lasting rfl (List.Subset.refl _) rfl fun _ => .inl

end Services

section Documents

variable {around : Surroundings}

theorem lasts_schemaElement (child : Node)
    (each : ∀ {well : Prop} path s, Lasts well noTypes (schemaFile path) around s) :
    Lasts well noTypes (schemaElement schemaFile child) around s := by
  refine (lasts_readName child).bind fun name s' _ _ => ?_
  split
  · unfold processInclude
    split
    · exact lasts_pure allHeld_nil
    · exact lasts_ask (each _ _)
  split
  · exact lasts_processClass child
  split
  · exact lasts_processDefine (lasting_contentOf child) child
  split
  · exact lasts_processService child
  · exact lasts_pure allHeld_nil

theorem lasts_processSchema (each : ∀ {well : Prop} path s, Lasts well noTypes (schemaFile path) around s)
    (children : List Node) : Lasts well noTypes (processSchema schemaFile children) around s := by
  induction children generalizing s well with
  | nil => exact lasts_pure nofun
  | cons child rest ih =>
    refine (lasts_schemaElement child each).bind fun done s' _ _ => ?_
    split
    · exact ih
    · exact lasts_pure nofun

theorem lasts_processSchemaFile (files : CString → Option Node) (depth : Nat) (filename : CString) :
    Lasts well noTypes (processSchemaFile files depth filename) around s := by
  induction depth generalizing filename around s well with
  | zero => exact lasts_stops (fun nonzero => nonzero rfl) nofun
  | succ depth ih =>
    refine lasts_fine (Nat.succ_ne_zero depth) ?_
    split
    · exact lasts_pure nofun
    · next root _ =>
      have whole : Lasts well noTypes (processSchema (processSchemaFile files depth) root.children)
          { around with filename } s := lasts_processSchema (fun path _ => ih path) root.children
      exact ⟨whole.exact.inside, fun here lasting => Keeps.inside
        ((whole.keeps here lasting).weaken fun _ _ final =>
          ⟨⟨final.1.live, final.1.lasting⟩, nofun⟩)⟩

/-- Processing a document reports an error or gives types, if as many files may be in files as its
includes need. -/
def Completes (files : CString → Option Node) (document : Node) (around : Surroundings)
    (s : Building) : Prop :=
  ∃ depth, Ends (processSchema (processSchemaFile files depth) document.children around s)

/-- Processing a document takes only harmless steps. -/
def TakesHarmless (files : CString → Option Node) (document : Node) (around : Surroundings)
    (s : Building) : Prop :=
  ∃ depth, ∀ step ∈ (processSchema (processSchemaFile files depth) document.children around s).1,
    Harmless step

/-- A document is processed to an end if and only if processing takes only harmless steps. -/
theorem completes_iff (files : CString → Option Node) (document : Node) (around : Surroundings)
    (s : Building) :
    Completes files document around s ↔ TakesHarmless files document around s :=
  exists_congr fun depth =>
    have whole : Lasts True noTypes (processSchema (processSchemaFile files depth) document.children)
        around s := lasts_processSchema (fun path _ => lasts_processSchemaFile files depth path) _
    whole.exact

/-- A member with neither a class nor a type. -/
theorem not_completes_bare : ¬ ∀ files document around s, Completes files document around s := by
  intro completes
  let struct := element "define" [("name", "a"), ("class", "struct")] [element "x" [] []]
  obtain ⟨depth, value, s', ended⟩ :=
    completes (fun _ => none) (element "schema" [] [struct]) {} initialBuilding
  have crashed : (processSchema (processSchemaFile (fun _ => none) depth) [struct] {}
      initialBuilding).2 = .error .null := rfl
  cases crashed.symm.trans ended

theorem initial_lasting : Lasting [initialScope] := by
  intro root member scope below type inside
  cases List.mem_singleton.mp member
  rcases below_children.mp below with rfl | ⟨child, member, -⟩
  · rw [Scope.roots, show initialScope.services = [] from rfl, List.flatMap_nil, List.append_nil] at inside
    obtain ⟨entry, known, rfl⟩ := List.mem_map.mp inside
    obtain ⟨⟨name, basic⟩, listed, rfl⟩ := List.mem_map.mp known
    refine held_iff.mpr ⟨?_, nofun⟩
    rintro origdef ⟨⟩
    exact ⟨initialScope, List.mem_singleton_self _, initialScope, .self _, rfl, List.mem_map_of_mem known⟩
  · nomatch member

/-- The states after schema files were processed one after another, by steps that are fine. -/
inductive Processed (fine : Step → Prop) (files : CString → Option Node)
    (notations : List ArrayNotation) : Building → Prop
  | initial : Processed fine files notations initialBuilding
  | file {s s' : Building} {depth : Nat} {filename : CString} {done : Bool}
      (before : Processed fine files notations s)
      (steps : ∀ step ∈ (processSchemaFile files depth filename { notations } s).1, fine step)
      (ran : (processSchemaFile files depth filename { notations } s).2 = .ok (done, s')) :
      Processed fine files notations s'

/-- Where nothing is left behind of a scope that is freed, all types have live definitions. -/
theorem processed_lasting {files : CString → Option Node} {notations : List ArrayNotation}
    {s : Building} (processed : Processed LeavesNothing files notations s) : Lasting [s.scope] := by
  induction processed with
  | initial => exact initial_lasting
  | @file s s' depth filename done before steps ran ih =>
    have whole : Lasts True noTypes (processSchemaFile files depth filename) { notations } s :=
      lasts_processSchemaFile files depth filename
    exact (whole.keeps trivial ih steps done s' ran).1.lasting

def Step.freed? : Step → Option (Scope × List XsType)
  | .freed scope built => some (scope, built)
  | _ => none

theorem leavesNothing_of_freed {steps : List Step}
    (apart : ∀ freed ∈ steps.filterMap Step.freed?, ∀ type ∈ freed.2, Apart freed.1 type) :
    ∀ step ∈ steps, LeavesNothing step := by
  intro step member
  cases step with
  | freed scope built => exact apart (scope, built) (List.mem_filterMap.mpr ⟨_, member, rfl⟩)
  | _ => trivial

/-- One file, with one definition of an array. -/
def arrayFile (array : Node) : CString → Option Node :=
  fun _ => some (element "schema" [] [element "define" [("name", "l")] [array]])

/-- The state after an array was defined. -/
def arrayBuilding (elementType : XsType) (nextScope : Nat) : Building :=
  let name := ascii ['l']
  let type := .array { origdef := some ⟨0, name⟩ } elementType none 0 (2 ^ 64 - 1) none
  { scope := { initialScope with types := initialScope.types ++ [(name, type)] }, nextScope }

/-- The element type is one of the outermost scope, and the scope of the array is freed. -/
theorem processed_lasting_array :
    Lasting [(arrayBuilding (scalarType ("string", some .string)) 2).scope] := by
  let files := arrayFile (element "array" [("element-type", "string")] [])
  have freed : (processSchemaFile files 1 [] {} initialBuilding).1.filterMap Step.freed? =
      [({ addr := 1, name := none },
        [.array {} (scalarType ("string", some .string)) none 0 (2 ^ 64 - 1) none])] := rfl
  have nothing : ∀ step ∈ (processSchemaFile files 1 [] {} initialBuilding).1, LeavesNothing step := by
    refine leavesNothing_of_freed (freed ▸ List.forall_mem_singleton.mpr
      (List.forall_mem_singleton.mpr (definedIn_iff.mpr ⟨nofun, List.forall_mem_singleton.mpr
        (definedIn_iff.mpr ⟨?_, nofun⟩)⟩)))
    rintro origdef ⟨⟩ inner below same
    rcases below_children.mp below with rfl | ⟨child, member, -⟩
    · cases same
    · nomatch member
  have ran : (processSchemaFile files 1 [] {} initialBuilding).2 =
      .ok (true, arrayBuilding (scalarType ("string", some .string)) 2) := rfl
  exact processed_lasting (.file .initial nothing ran)

/-- The element type is one of the scope that is freed. -/
theorem not_lasting_local : ¬ ∀ files notations s,
    Processed (fun _ => True) files notations s → Lasting [s.scope] := by
  intro lasts
  let array := element "array" [] [element "define" [("name", "t"), ("class", "dict")] [], element "t" [] []]
  let elementType : XsType := .dict { origdef := some ⟨1, ascii ['t']⟩ } [] []
  have ran : (processSchemaFile (arrayFile array) 1 [] {} initialBuilding).2 =
      .ok (true, arrayBuilding elementType 3) := rfl
  have lasting := lasts (arrayFile array) [] _ (.file .initial (fun _ _ => trivial) ran)
  have held := lasting _ (List.mem_singleton_self _) _ (.self _) _
    (List.mem_append_left _ (List.mem_map_of_mem (List.mem_append_right _ (List.mem_singleton_self _))))
  obtain ⟨root, member, scope, below, same, -⟩ :=
    held elementType (.component (List.mem_singleton_self _) (.self _)) ⟨1, ascii ['t']⟩ rfl
  cases List.mem_singleton.mp member
  rcases below_children.mp below with rfl | ⟨child, member, -⟩
  · cases same
  · nomatch member

end Documents

end Testbus.Schema.Build
