import Ocelotl.IR.Correspondence
import Ocelotl.IR.PathEnvironments

namespace Ocelotl.IR

open Ast Semantic Library IRGenerator

variable {ids ids' : Renaming} {generator generator' final final' : IRGenerator}
  {block thenEnd elseEnd : BlockId} {name : String} {info thenValue elseValue : ValueInfo}
  {thenValues elseValues thenValues' elseValues' : Environment}
  {entries entries' : List (String × ValueInfo)}

/-- A name that a merge joins in a phi. -/
structure Joint where
  name : String
  result : ValueId
  thenValue : ValueInfo
  elseValue : ValueInfo

variable {joint joint' : Joint} {joints joints' : List Joint}

def Joint.phi (thenEnd elseEnd : BlockId) (joint : Joint) : Operation :=
  joinPhi joint.result thenEnd elseEnd joint.thenValue joint.elseValue

/-- What its name is bound to. -/
def Joint.joined (joint : Joint) : ValueInfo := ⟨joint.result, joint.thenValue.type⟩

/-- The name has a value in the entry and another one in the else-branch. -/
structure Joint.Joins (joint : Joint) (elseValues : Environment)
    (entries : List (String × ValueInfo)) : Prop where
  fromThen : (joint.name, joint.thenValue) ∈ entries
  fromElse : elseValues.lookup joint.name = some joint.elseValue
  differ : joint.thenValue.value ≠ joint.elseValue.value

/-- A name that has the same value at the end of both branches. -/
def Kept (elseValues : Environment) (entries : List (String × ValueInfo)) (name : String)
    (info : ValueInfo) : Prop :=
  ∃ elseValue, (name, info) ∈ entries ∧ elseValues.lookup name = some elseValue ∧
    info.value = elseValue.value

private theorem kept_cons {other : String} : Kept elseValues ((name, thenValue) :: entries) other info ↔
    Kept elseValues [(name, thenValue)] other info ∨ Kept elseValues entries other info := by
  simp only [Kept, List.mem_cons, List.not_mem_nil, or_false, or_and_right, exists_or]

/-- The names that are joined, in the order in which their phis are numbered. -/
structure Numbers (elseValues : Environment) (entries : List (String × ValueInfo)) (next : ValueId)
    (joints : List Joint) : Prop where
  results : joints.map Joint.result = List.range' next joints.length
  names : (joints.map Joint.name).Sublist (entries.map Prod.fst)
  joins : ∀ joint ∈ joints, joint.Joins elseValues entries
  all : ∀ {name thenValue elseValue}, (name, thenValue) ∈ entries →
    elseValues.lookup name = some elseValue →
    thenValue.value ≠ elseValue.value → ∃ joint ∈ joints, joint.name = name

/-- What the loop does for these names. -/
structure MergesInto (thenEnd elseEnd block : BlockId) (elseValues : Environment)
    (entries : List (String × ValueInfo)) (joints : List Joint)
    (generator final : IRGenerator) : Prop where
  nextValueId : final.nextValueId = generator.nextValueId + joints.length
  nextBlockId : final.nextBlockId = generator.nextBlockId
  currentBlockId : final.currentBlockId = generator.currentBlockId
  entry : final.module.entry = generator.module.entry
  blocks : final.module.blocks = generator.module.blocks.modify block fun body =>
    { body with operations := body.operations ++ joints.map (Joint.phi thenEnd elseEnd) }
  values : ∀ name info, final.values.lookup name = some info ↔
    generator.values.lookup name = some info ∨
    (∃ joint ∈ joints, joint.name = name ∧ info = joint.joined) ∨ Kept elseValues entries name info

theorem Joint.Joins.cons (joins : joint.Joins elseValues entries) (entry : String × ValueInfo) :
    joint.Joins elseValues (entry :: entries) :=
  ⟨List.mem_cons_of_mem _ joins.fromThen, joins.fromElse, joins.differ⟩

/-- An entry that needs no phi. -/
theorem Numbers.cons {next : ValueId} (numbers : Numbers elseValues entries next joints)
    (skips : ∀ elseValue, elseValues.lookup name = some elseValue →
      thenValue.value = elseValue.value) :
    Numbers elseValues ((name, thenValue) :: entries) next joints where
  results := numbers.results
  names := numbers.names.cons _
  joins := fun joint member => (numbers.joins joint member).cons _
  all := by
    intro other value elseValue member found differ
    rcases List.mem_cons.mp member with here | later
    · cases here
      exact absurd (skips elseValue found) differ
    · exact numbers.all later found differ

/-- An entry that is joined. -/
theorem Numbers.join {next : ValueId} (numbers : Numbers elseValues entries (next + 1) joints)
    (found : elseValues.lookup name = some elseValue) (differ : thenValue.value ≠ elseValue.value) :
    Numbers elseValues ((name, thenValue) :: entries) next (⟨name, next, thenValue, elseValue⟩ ::
      joints) where
  results := congrArg (next :: ·) numbers.results
  names := numbers.names.cons_cons name
  joins := List.forall_mem_cons.mpr ⟨⟨List.mem_cons_self, found, differ⟩,
    fun joint member => (numbers.joins joint member).cons _⟩
  all := by
    intro other value elseValue member found differ
    rcases List.mem_cons.mp member with here | later
    · cases here
      exact ⟨_, List.mem_cons_self, rfl⟩
    · obtain ⟨joint, member, same⟩ := numbers.all later found differ
      exact ⟨joint, List.mem_cons_of_mem _ member, same⟩

private theorem lookup_offer_iff (absent : generator.values.lookup name = none) {other : String}
    {bound : ValueInfo} : (generator.offer name info).values.lookup other = some bound ↔
      generator.values.lookup other = some bound ∨ other = name ∧ bound = info := by
  rw [lookup_offer absent]
  by_cases same : other = name
  · subst same
    rw [if_pos rfl, absent]
    simp [eq_comm]
  · simp [same]

theorem mergeValues_joins (active : Active generator block) (nodup : (entries.map Prod.fst).Nodup)
    (absent : ∀ entry ∈ entries, generator.values.lookup entry.1 = none)
    (success : mergeValues thenEnd elseEnd elseValues entries generator = .ok () final) :
    ∃ joints, Numbers elseValues entries generator.nextValueId joints ∧
      MergesInto thenEnd elseEnd block elseValues entries joints generator final := by
  induction entries generalizing generator with
  | nil =>
    cases success
    refine ⟨[], ⟨rfl, .slnil, List.forall_mem_nil _, fun member => absurd member List.not_mem_nil⟩,
      rfl, rfl, rfl, rfl, ?_, ?_⟩
    · simp only [List.map_nil, List.append_nil]
      exact (List.modify_id _ _).symm
    · simp [Kept]
  | cons entry entries ih =>
    obtain ⟨name, thenValue⟩ := entry
    obtain ⟨unlisted, nodup⟩ := List.nodup_cons.mp nodup
    obtain ⟨here, absent⟩ := List.forall_mem_cons.mp absent
    have still (middle : IRGenerator) (info : ValueInfo) (same : middle.values = generator.values) :
        ∀ entry ∈ entries, (middle.offer name info).values.lookup entry.1 = none := by
      intro entry member
      rw [lookup_offer (same ▸ here), if_neg]
      · exact same ▸ absent entry member
      · intro equal
        exact unlisted (List.mem_map.mpr ⟨entry, member, equal⟩)
    rcases (mergeValues_cons_ok active).mp success with
      ⟨missing, success⟩ | ⟨elseValue, found, typed, ⟨same, success⟩ | ⟨differ, success⟩⟩
    · obtain ⟨joints, numbers, merges⟩ := ih active nodup absent success
      refine ⟨joints, numbers.cons fun elseValue found => ?_, { merges with values := ?_ }⟩
      · rw [missing] at found
        cases found
      · intro other info
        have skipped : ¬ Kept elseValues [(name, thenValue)] other info := by
          intro ⟨elseValue, member, found, _⟩
          cases List.mem_singleton.mp member
          rw [missing] at found
          cases found
        rw [merges.values, kept_cons, or_iff_right skipped]
    · obtain ⟨joints, numbers, merges⟩ :=
        ih (active.offer _ _) nodup (still generator _ rfl) success
      refine ⟨joints, numbers.cons fun other found' => ?_, { merges with values := ?_ }⟩
      · cases found.symm.trans found'
        exact same
      · intro other info
        have kept : Kept elseValues [(name, thenValue)] other info ↔
            other = name ∧ info = thenValue := by
          constructor
          · intro ⟨_, member, _⟩
            cases List.mem_singleton.mp member
            exact ⟨rfl, rfl⟩
          · rintro ⟨rfl, rfl⟩
            exact ⟨elseValue, List.mem_singleton.mpr rfl, found, same⟩
        rw [merges.values, kept_cons, kept, lookup_offer_iff here, or_assoc]
        exact or_congr_right or_left_comm
    · obtain ⟨joints, numbers, merges⟩ := ih ((active.appendTo _).offer _ _) nodup
        (still (generator.appendTo block _) _ rfl) success
      refine ⟨_, numbers.join found differ,
        ⟨?_, merges.nextBlockId, merges.currentBlockId, merges.entry, ?_, ?_⟩⟩
      · rw [merges.nextValueId, List.length_cons]
        exact (Nat.add_right_comm _ _ _).trans (Nat.add_assoc _ _ _)
      · rw [merges.blocks]
        refine (List.modify_modify_eq _ _ _ _).trans ?_
        refine congrArg (fun change => generator.module.blocks.modify block change)
          (funext fun body => ?_)
        simp [BasicBlock.append, Joint.phi]
      · intro other info
        have moved : ¬ Kept elseValues [(name, thenValue)] other info := by
          intro ⟨other', member, found', same⟩
          cases List.mem_singleton.mp member
          cases found.symm.trans found'
          exact differ same
        have first : (name = other ∧
          info = Joint.joined ⟨name, generator.nextValueId, thenValue, elseValue⟩) ↔
            other = name ∧ info = ⟨generator.nextValueId, thenValue.type⟩ := and_congr_left' eq_comm
        rw [merges.values, kept_cons, or_iff_right moved, lookup_offer_iff (by exact here)]
        simp only [List.exists_mem_cons_iff, or_assoc]
        rw [first]
        exact Iff.rfl

/-- The order of the entries of a map. -/
structure Lists (values : Environment) (entries : List (String × ValueInfo)) : Prop where
  nodup : (entries.map Prod.fst).Nodup
  mem_iff : ∀ {name info}, (name, info) ∈ entries ↔ values.lookup name = some info

structure JointSent (ids : Renaming) (joint joint' : Joint) : Prop where
  name : joint'.name = joint.name
  result : ids.Sends joint.result joint'.result
  thenValue : InfoSent ids joint.thenValue joint'.thenValue
  elseValue : InfoSent ids joint.elseValue joint'.elseValue

theorem JointSent.phi (sent : JointSent ids joint joint') :
    OperationSent ids (joint.phi thenEnd elseEnd) (joint'.phi thenEnd elseEnd) := by
  unfold Joint.phi joinPhi
  rw [sent.thenValue.type]
  exact .phi sent.result
    (.cons ⟨rfl, sent.thenValue.value⟩ (.cons ⟨rfl, sent.elseValue.value⟩ .nil))

theorem JointSent.joined (sent : JointSent ids joint joint') :
    InfoSent ids joint.joined joint'.joined :=
  ⟨sent.result, sent.thenValue.type⟩

/-- The names that are joined do not depend on the order. -/
theorem Numbers.mem_names {next : ValueId} (numbers : Numbers elseValues entries next joints)
    (lists : Lists thenValues entries) : name ∈ joints.map Joint.name ↔
      ∃ thenValue elseValue, thenValues.lookup name = some thenValue ∧
        elseValues.lookup name = some elseValue ∧ thenValue.value ≠ elseValue.value := by
  rw [List.mem_map]
  constructor
  · rintro ⟨joint, member, rfl⟩
    obtain ⟨fromThen, fromElse, differ⟩ := numbers.joins joint member
    exact ⟨joint.thenValue, joint.elseValue, lists.mem_iff.mp fromThen, fromElse, differ⟩
  · intro ⟨thenValue, elseValue, fromThen, fromElse, differ⟩
    exact numbers.all (lists.mem_iff.mpr fromThen) fromElse differ

theorem EnvironmentSent.of_some' {values values' : Environment}
    (sent : EnvironmentSent ids values values') (found : values'.lookup name = some info) :
    ∃ before, values.lookup name = some before ∧ InfoSent ids before info := by
  have related := sent name
  rw [found] at related
  generalize values.lookup name = result at related ⊢
  cases related with
  | some same => exact ⟨_, rfl, same⟩

theorem OperationsSent.eq_nil {operations : List Operation}
    (sent : OperationsSent ids [] operations) :
    operations = [] := by
  generalize before : [] = list at sent
  cases sent with
  | intro _ phisSent shuffled _ restSent =>
    obtain ⟨rfl, rfl⟩ := List.append_eq_nil_iff.mp before.symm
    cases phisSent
    cases restSent
    rw [shuffled.symm.eq_nil, List.append_nil]

section TwoOrders

variable (numbers : Numbers elseValues entries generator.nextValueId joints)
  (numbers' : Numbers elseValues' entries' generator'.nextValueId joints')
  (lists : Lists thenValues entries) (lists' : Lists thenValues' entries')
  (fromThen : EnvironmentSent ids thenValues thenValues')
  (fromElse : EnvironmentSent ids elseValues elseValues')
include numbers numbers' lists lists' fromThen fromElse

private theorem names_perm : (joints.map Joint.name).Perm (joints'.map Joint.name) := by
  have nodup := numbers.names.nodup lists.nodup
  have nodup' := numbers'.names.nodup lists'.nodup
  refine (List.perm_ext_iff_of_nodup nodup nodup').mpr fun name => ?_
  rw [numbers.mem_names lists, numbers'.mem_names lists']
  constructor
  · intro ⟨thenValue, elseValue, inThen, inElse, differ⟩
    obtain ⟨thenValue', inThen', thenSent⟩ := fromThen.of_some inThen
    obtain ⟨elseValue', inElse', elseSent⟩ := fromElse.of_some inElse
    exact ⟨thenValue', elseValue', inThen', inElse', fun equal =>
      differ ((thenSent.value.eq_iff elseSent.value).mpr equal)⟩
  · intro ⟨thenValue', elseValue', inThen', inElse', differ⟩
    obtain ⟨thenValue, inThen, thenSent⟩ := fromThen.of_some' inThen'
    obtain ⟨elseValue, inElse, elseSent⟩ := fromElse.of_some' inElse'
    exact ⟨thenValue, elseValue, inThen, inElse, fun equal =>
      differ ((thenSent.value.eq_iff elseSent.value).mp equal)⟩

/-- The same name is joined from values that correspond. -/
theorem sent_of_name (longer : ids.Extends ids') (member : joint ∈ joints)
    (member' : joint' ∈ joints') (name : joint'.name = joint.name)
    (result : ids'.Sends joint.result joint'.result) :
    JointSent ids' joint joint' := by
  obtain ⟨inThen, inElse, _⟩ := numbers.joins joint member
  obtain ⟨inThen', inElse', _⟩ := numbers'.joins joint' member'
  obtain ⟨thenValue, found, thenSent⟩ := fromThen.of_some (lists.mem_iff.mp inThen)
  obtain ⟨elseValue, found', elseSent⟩ := fromElse.of_some inElse
  rw [name] at inThen' inElse'
  cases found.symm.trans (lists'.mem_iff.mp inThen')
  cases found'.symm.trans inElse'
  exact ⟨name, result, thenSent.mono longer, elseSent.mono longer⟩

/-- The joints of the other order, in this order, and the renaming of their results. -/
theorem exists_matched (same : Corresponds ids generator generator') :
    ∃ ids' matched, ids.Extends ids' ∧ ids'.size = ids.size + joints.length ∧
    matched.Perm joints' ∧ List.Forall₂ (JointSent ids') joints matched := by
  obtain ⟨matched, names, perm⟩ : ∃ matched : List Joint, joints.map Joint.name =
      matched.map Joint.name ∧ matched.Perm joints' := by
    have perm := names_perm numbers numbers' lists lists' fromThen fromElse
    exact (congrFun₂ (List.eq_map_comp_perm Joint.name) _ _).mpr perm
  have length : matched.length = joints.length := by simpa using congrArg List.length names.symm
  have added :
      (matched.map Joint.result).Perm (List.range' ids.size (matched.map Joint.result).length) := by
    have results := perm.map Joint.result
    rw [numbers'.results, same.nextValueId', ← perm.length_eq] at results
    rwa [List.length_map]
  have sends : List.Forall₂ (ids.append _ added).Sends (joints.map Joint.result)
      (matched.map Joint.result) := by
    rw [numbers.results, same.nextValueId, ← length, ← List.length_map Joint.result]
    exact Renaming.forall₂_append
  refine ⟨ids.append _ added, matched, Renaming.extends_append, ?_, perm, ?_⟩
  · rw [Renaming.size_append, List.length_map, length]
  · refine List.forall₂_iff_get.mpr ⟨length.symm, fun index within within' => ?_⟩
    have name := congrArg (fun names => names[index]?) names
    have result :=
      (List.forall₂_iff_get.mp sends).2 index (by simpa using within) (by simpa using within')
    simp only [List.getElem?_map, List.getElem?_eq_getElem within, List.getElem?_eq_getElem within',
      Option.map_some, Option.some.injEq] at name
    simp only [List.get_eq_getElem, List.getElem_map] at result ⊢
    exact sent_of_name numbers numbers' lists lists' fromThen fromElse Renaming.extends_append
      (List.getElem_mem within) (perm.subset (List.getElem_mem within')) name.symm result

omit numbers numbers' in
private theorem kept_sent (kept : Kept elseValues entries name info) :
    ∃ info', Kept elseValues' entries' name info' ∧ InfoSent ids info info' := by
  obtain ⟨elseValue, member, found, equal⟩ := kept
  obtain ⟨info', inThen, sent⟩ := fromThen.of_some (lists.mem_iff.mp member)
  obtain ⟨elseValue', inElse, elseSent⟩ := fromElse.of_some found
  exact ⟨info', ⟨elseValue', lists'.mem_iff.mpr inThen, inElse,
    (sent.value.eq_iff elseSent.value).mp equal⟩, sent⟩

omit numbers numbers' in
private theorem kept_sent' (kept : Kept elseValues' entries' name info) :
    ∃ before, Kept elseValues entries name before := by
  obtain ⟨elseValue, member, found, equal⟩ := kept
  obtain ⟨before, inThen, sent⟩ := fromThen.of_some' (lists'.mem_iff.mp member)
  obtain ⟨elseBefore, inElse, elseSent⟩ := fromElse.of_some' found
  exact ⟨before, elseBefore, lists.mem_iff.mpr inThen, inElse,
    (sent.value.eq_iff elseSent.value).mpr equal⟩

private theorem values_sent {matched : List Joint} (longer : ids.Extends ids') (perm : matched.Perm joints')
    (sent : List.Forall₂ (JointSent ids') joints matched)
    (unbound : generator.values = ∅) (unbound' : generator'.values = ∅)
    (merges : MergesInto thenEnd elseEnd block elseValues entries joints generator final)
    (merges' : MergesInto thenEnd elseEnd block elseValues' entries' joints' generator' final') :
    EnvironmentSent ids' final.values final'.values := by
  have values name info := merges.values name info
  have values' name info := merges'.values name info
  simp only [unbound, unbound', AList.lookup_empty, reduceCtorEq, false_or] at values values'
  intro name
  cases found : final.values.lookup name with
  | some info =>
    obtain ⟨info', found', related⟩ : ∃ info', final'.values.lookup name = some info' ∧
        InfoSent ids' info info' := by
      rcases (values name info).mp found with ⟨joint, member, same, rfl⟩ | kept
      · obtain ⟨index, here⟩ := List.getElem?_of_mem member
        obtain ⟨joint', there, related⟩ := exists_of_forall₂ sent here
        have member' : joint' ∈ joints' := perm.subset (List.mem_of_getElem? there)
        exact ⟨joint'.joined, (values' name _).mpr (.inl ⟨joint', member', related.name.trans same,
          rfl⟩), related.joined⟩
      · obtain ⟨info', kept', related⟩ := kept_sent lists lists' fromThen fromElse kept
        exact ⟨info', (values' name _).mpr (.inr kept'), related.mono longer⟩
    rw [found']
    exact .some related
  | none =>
    cases found' : final'.values.lookup name with
    | none => exact .none
    | some info' =>
      have bound : ∃ info, final.values.lookup name = some info := by
        rcases (values' name info').mp found' with ⟨joint', member', same, _⟩ | kept'
        · have names := names_perm numbers numbers' lists lists' fromThen fromElse
          obtain ⟨joint, member, equal⟩ :=
            List.mem_map.mp (names.symm.subset (List.mem_map_of_mem member'))
          exact ⟨_, (values name _).mpr (.inl ⟨joint, member, equal.trans same, rfl⟩)⟩
        · obtain ⟨info, kept⟩ := kept_sent' lists lists' fromThen fromElse kept'
          exact ⟨info, (values name info).mpr (.inr kept)⟩
      obtain ⟨info, bound⟩ := bound
      rw [found] at bound
      cases bound

/-- The two orders lead to generators that correspond. -/
theorem mergesInto_corresponds (same : Corresponds ids generator generator')
    (unbound : generator.values = ∅) (unbound' : generator'.values = ∅)
    (empty : ∀ body, generator.module.blocks[block]? = some body → body.operations = [])
    (merges : MergesInto thenEnd elseEnd block elseValues entries joints generator final)
    (merges' : MergesInto thenEnd elseEnd block elseValues' entries' joints' generator' final') :
    ∃ ids', ids.Extends ids' ∧ Corresponds ids' final final' := by
  obtain ⟨ids', matched, longer, size, perm, sent⟩ :=
    exists_matched numbers numbers' lists lists' fromThen fromElse same
  have length : joints'.length = joints.length := by
    rw [← perm.length_eq, sent.length_eq]
  refine ⟨ids', longer, ?_, ?_, ?_, ?_, ?_, ?_, ?_⟩
  · rw [merges.nextValueId, same.nextValueId, size]
  · rw [merges'.nextValueId, same.nextValueId', size, length]
  · exact merges'.nextBlockId.trans (same.nextBlockId.trans merges.nextBlockId.symm)
  · exact merges'.currentBlockId.trans (same.currentBlockId.trans merges.currentBlockId.symm)
  · exact merges'.entry.trans (same.entry.trans merges.entry.symm)
  · rw [merges.blocks, merges'.blocks]
    refine forall₂_modify same.blocks (fun _ _ before => before.mono longer) ?_
    intro body body' found _ before
    have older := before.mono longer
    refine ⟨older.id, older.name, older.terminator, ?_⟩
    have none' : body'.operations = [] := (empty body found ▸ before.operations).eq_nil
    rw [empty body found, none', List.nil_append, List.nil_append, ← List.append_nil (joints.map _),
      ← List.append_nil (joints'.map _)]
    refine .intro (fun operation member => ?_) ?_ (perm.map (Joint.phi thenEnd elseEnd))
      (List.forall_mem_nil _) .nil
    · obtain ⟨joint, _, rfl⟩ := List.mem_map.mp member
      rfl
    · exact List.forall₂_map_left_iff.mpr
        (List.forall₂_map_right_iff.mpr (sent.imp fun _ _ sent => sent.phi))
  · exact values_sent numbers numbers' lists lists' fromThen fromElse longer perm sent unbound
      unbound' merges merges'

end TwoOrders

end Ocelotl.IR
