import Clusterd.CommonRoles
import Clusterd.StoutPath
/-!
# Role ACLs of the local authorizer (`authorizer/local/authorizer.cpp`)

An ACL is split into one for each of its recursive roles and one for the others, and the first that matches decides.  That is
the decision of the first ACL before the split, unless one for any or for no role also has a recursive value, which the approver
takes for a recursive role.
-/
namespace Clusterd.Authorizer

open List Stout Common.Roles

inductive EntityType
  | some
  | any
  | none
deriving DecidableEq

/-- `ACL::Entity`. -/
structure Entity where
  type : EntityType := .some
  values : List Text := []

/-- `matches`. -/
def matchesAcl (request acl : Entity) : Bool :=
  match request.type with
  | .none => acl.type = .none
  | .any => acl.type = .any || acl.type = .none
  | .some => if acl.type = .any || acl.type = .none then true else request.values.all (· ∈ acl.values)

def allows (request acl : Entity) : Bool :=
  match request.type with
  | .none => acl.type = .none
  | .any => acl.type = .any
  | .some =>
    if acl.type = .any then true
    else if acl.type = .none then false
    else request.values.all (· ∈ acl.values)

/-- An ACL with principals and roles. -/
structure RoleAcl where
  (principals roles : Entity)

structure GenericAcl where
  (subjects objects : Entity)

/-- `strings::endsWith(value, "/%")`. -/
def isRecursive (value : Text) : Bool := ['/', '%'].isSuffixOf value

/-- One turn of the loop of `createHierarchicalRoleACLs`. -/
def RoleAcl.split (this : RoleAcl) : List GenericAcl :=
  match this.roles.type with
  | .some =>
    let roles := this.roles.values.filter (!isRecursive ·)
    (this.roles.values.filter isRecursive).map
        (fun value => { subjects := this.principals, objects := { values := [value] } }) ++
      if roles.isEmpty then [] else [{ subjects := this.principals, objects := { values := roles } }]
  | .any => [{ subjects := this.principals, objects := this.roles }]
  | .none => [{ subjects := this.principals, objects := this.roles }]

def createHierarchicalRoleACLs (acls : List RoleAcl) : List GenericAcl := acls.flatMap RoleAcl.split

def isRecursiveACL (acl : GenericAcl) : Bool := acl.objects.values.length = 1 && isRecursive (acl.objects.values.headD [])

def isNestedHierarchy (parent child : Text) : Bool := parent.dropLast.isPrefixOf child

/-- The loop of `LocalHierarchicalRoleApprover::approved`. -/
def approved (permissive : Bool) (subject object : Entity) : List GenericAcl → Bool
  | [] => permissive
  | acl :: rest =>
    if !isRecursiveACL acl then
      if matchesAcl subject acl.subjects && matchesAcl object acl.objects then
        allows subject acl.subjects && allows object acl.objects
      else approved permissive subject object rest
    else if object.type = .some && isNestedHierarchy (acl.objects.values.headD []) (object.values.headD []) then
      if matchesAcl subject acl.subjects && matchesAcl object { type := .any } then
        allows subject acl.subjects && allows object { type := .any }
      else approved permissive subject object rest
    else approved permissive subject object rest

/-- `entitySubject_`. -/
def entitySubject : Option Text → Entity
  | .some principal => { values := [principal] }
  | .none => { type := .any }

def entityObject (role : Text) : Entity := { values := [role] }

/-- `approved` for the registration of a framework. -/
def approvedRoles (permissive : Bool) (subject : Entity) (roles : List Text) (acls : List GenericAcl) : Bool :=
  if roles.any fun role => !approved permissive subject (entityObject role) acls then false
  else if roles.isEmpty then permissive
  else true

/-! ## The first ACL that matches -/

def isProperAncestor (ancestor role : Text) : Bool := isStrictSubroleOf (.ofList role) (.ofList ancestor)

namespace RoleAcl

/-- The roles are any or none, or name the role or all the roles below an ancestor of it. -/
def covers (this : RoleAcl) (role : Text) : Bool :=
  this.roles.type ≠ .some || this.roles.values.any fun value =>
    value = role || (isRecursive value && isProperAncestor value.dropLast.dropLast role)

/-- The ACL matches the request. -/
def applies (this : RoleAcl) (subject : Entity) (role : Text) : Bool := matchesAcl subject this.principals && this.covers role

/-- What the ACL says if it matches. -/
def verdict (this : RoleAcl) (subject : Entity) : Bool := allows subject this.principals && this.roles.type ≠ .none

/-- **What an ACL list says**: what the first one says that matches. -/
def decision (permissive : Bool) (subject : Entity) (role : Text) : List RoleAcl → Bool
  | [] => permissive
  | acl :: rest => if acl.applies subject role then acl.verdict subject else decision permissive subject role rest

/-- The ACL is for any or for no role, and its only value is recursive. -/
def Odd (this : RoleAcl) : Prop := this.roles.type ≠ .some ∧ isRecursiveACL ⟨this.principals, this.roles⟩ = true

instance (this : RoleAcl) : Decidable this.Odd :=
  inferInstanceAs (Decidable (this.roles.type ≠ .some ∧ isRecursiveACL ⟨this.principals, this.roles⟩ = true))

/-- What is made of an odd ACL: one for the roles below its value. -/
def asRead (this : RoleAcl) : RoleAcl := if this.Odd then { this with roles := { values := this.roles.values } } else this

end RoleAcl

/-! ## Ancestors -/

/-- **To begin with the ancestor and a slash is to be below it.** -/
theorem isProperAncestor_iff {ancestor role : Text} :
    isProperAncestor ancestor role = true ↔ ancestor ++ ['/'] <+: role := by
  rw [isProperAncestor, isStrictSubroleOf_iff, String.toList_ofList, String.toList_ofList]
  simp [IsPrefix, eq_comm]

theorem isNestedHierarchy_eq {value : Text} (hr : isRecursive value = true) (role : Text) :
    isNestedHierarchy value role = isProperAncestor value.dropLast.dropLast role := by
  obtain ⟨_, rfl⟩ := isSuffixOf_iff_suffix.1 hr
  rw [Bool.eq_iff_iff, isProperAncestor_iff, isNestedHierarchy, isPrefixOf_iff_prefix, dropLast_append_of_ne_nil (by simp),
    dropLast_append_of_ne_nil (by simp)]
  simp

/-! ## The ACLs of one -/

variable {permissive : Bool} {subject acl : Entity} {role : Text} {tail : List GenericAcl} {principals : Entity}

@[simp]
theorem matchesAcl_entityObject :
    matchesAcl (entityObject role) acl = (acl.type ≠ .some || decide (role ∈ acl.values)) := by
  cases h : acl.type <;> simp [matchesAcl, entityObject, h]

theorem allows_entityObject (hm : matchesAcl (entityObject role) acl = true) :
    allows (entityObject role) acl = decide (acl.type ≠ .none) := by
  rw [matchesAcl_entityObject] at hm
  cases h : acl.type <;> simp_all [allows, entityObject]

theorem approved_recursive {values : List Text} (hv : ∀ value ∈ values, isRecursive value = true) :
    approved permissive subject (entityObject role) (values.map (fun value => ⟨principals, { values := [value] }⟩) ++ tail) =
      if matchesAcl subject principals && values.any (isProperAncestor ·.dropLast.dropLast role) then allows subject principals
      else approved permissive subject (entityObject role) tail := by
  induction values with
  | nil => simp
  | cons value values ih =>
    have hr := hv value mem_cons_self
    have ih := ih fun value hm => hv value (mem_cons_of_mem _ hm)
    have ht : (entityObject role).type = .some := rfl
    have ho : (entityObject role).values = [role] := rfl
    have hany : allows (entityObject role) { type := .any } = true := rfl
    rw [map_cons, cons_append, approved, ih]
    by_cases hm : matchesAcl subject principals = true
    · by_cases ha : isProperAncestor value.dropLast.dropLast role = true
      · simp [isRecursiveACL, hr, isNestedHierarchy_eq, ht, ho, hm, ha, hany]
      · simp [isRecursiveACL, hr, isNestedHierarchy_eq, ht, ho, hm, ha]
    · simp [isRecursiveACL, hm]

theorem approved_plain {objects : Entity} (hr : isRecursiveACL ⟨principals, objects⟩ = false) :
    approved permissive subject (entityObject role) (⟨principals, objects⟩ :: tail) =
      if matchesAcl subject principals && matchesAcl (entityObject role) objects then
        allows subject principals && objects.type ≠ .none
      else approved permissive subject (entityObject role) tail := by
  rw [approved, hr]
  by_cases hm : matchesAcl (entityObject role) objects = true
  · simp [allows_entityObject hm]
  · simp [hm]

namespace RoleAcl

variable {this : RoleAcl}

theorem covers_eq (ht : this.roles.type = .some) : this.covers role =
    ((this.roles.values.filter isRecursive).any (isProperAncestor ·.dropLast.dropLast role) ||
      decide (role ∈ this.roles.values.filter (!isRecursive ·))) := by
  rw [Bool.eq_iff_iff]
  simp only [covers, ht, Bool.or_eq_true, any_eq_true, mem_filter, decide_eq_true_eq, Bool.and_eq_true]
  constructor
  · rintro (hf | ⟨value, hv, rfl | ha⟩)
    · simp at hf
    · by_cases hr : isRecursive value = true
      -- A recursive role is below its own ancestor.
      · refine .inl ⟨value, ⟨hv, hr⟩, ?_⟩
        rw [← isNestedHierarchy_eq hr, isNestedHierarchy, isPrefixOf_iff_prefix]
        exact dropLast_prefix value
      · exact .inr ⟨hv, by simpa using hr⟩
    · exact .inl ⟨value, ⟨hv, ha.1⟩, ha.2⟩
  · rintro (⟨value, ⟨hv, hr⟩, ha⟩ | ⟨hv, -⟩)
    · exact .inr ⟨value, hv, .inr ⟨hr, ha⟩⟩
    · exact .inr ⟨role, hv, .inl rfl⟩

/-- **The ACLs that one is split into say what it says.** -/
theorem approved_split (h : matchesAcl subject this.principals = true → ¬this.Odd) :
    approved permissive subject (entityObject role) (this.split ++ tail) =
      if this.applies subject role then this.verdict subject else approved permissive subject (entityObject role) tail := by
  unfold applies verdict
  have hpl : this.roles.type ≠ .some →
      approved permissive subject (entityObject role) (⟨this.principals, this.roles⟩ :: tail) =
        if matchesAcl subject this.principals then allows subject this.principals && this.roles.type ≠ .none
        else approved permissive subject (entityObject role) tail := by
    intro ht
    by_cases hm : matchesAcl subject this.principals = true
    · rw [approved_plain (Bool.eq_false_iff.2 fun hr => h hm ⟨ht, hr⟩)]
      simp [ht]
    · simp [approved, hm]
  cases ht : this.roles.type with
  | some =>
    have hp : approved permissive subject (entityObject role)
        ((if (this.roles.values.filter (!isRecursive ·)).isEmpty then []
          else [⟨this.principals, { values := this.roles.values.filter (!isRecursive ·) }⟩]) ++ tail) =
        if matchesAcl subject this.principals && role ∈ this.roles.values.filter (!isRecursive ·) then
          allows subject this.principals
        else approved permissive subject (entityObject role) tail := by
      cases hv : this.roles.values.filter (!isRecursive ·) with
      | nil => simp
      | cons value rest =>
        have hr := (mem_filter.1 (hv ▸ mem_cons_self : value ∈ this.roles.values.filter (!isRecursive ·))).2
        have hr : isRecursiveACL ⟨this.principals, { values := value :: rest }⟩ = false := by
          simp_all [isRecursiveACL]
        simp [approved_plain hr]
    simp only [split, ht, append_assoc, approved_recursive fun _ hv => (mem_filter.1 hv).2, hp, covers_eq ht]
    cases matchesAcl subject this.principals <;>
      cases (this.roles.values.filter isRecursive).any (isProperAncestor ·.dropLast.dropLast role) <;> simp
  | any | none => simpa [split, ht, covers] using hpl (by simp [ht])

end RoleAcl

open RoleAcl

/-- What the approver makes of an odd ACL that matches. -/
theorem approved_odd {acl : RoleAcl} (h : acl.Odd) (hm : matchesAcl subject acl.principals = true) :
    approved permissive subject (entityObject role) (acl.split ++ tail) =
      if isNestedHierarchy (acl.roles.values.headD []) role then allows subject acl.principals
      else approved permissive subject (entityObject role) tail := by
  obtain ⟨ht, hr⟩ := h
  have hs : acl.split = [⟨acl.principals, acl.roles⟩] := by
    unfold split
    cases hc : acl.roles.type with
    | some => exact absurd hc ht
    | any | none => rfl
  have hobject : (entityObject role).type = .some ∧ (entityObject role).values = [role] := ⟨rfl, rfl⟩
  have hany : matchesAcl (entityObject role) { type := .any } = true ∧ allows (entityObject role) { type := .any } = true :=
    ⟨rfl, rfl⟩
  rw [hs, singleton_append, approved, hr]
  simp [hm, hany, hobject]

section

variable {acls rest : List RoleAcl} {acl : RoleAcl}

/-- As it is read, an odd ACL is for the roles below its value. -/
theorem covers_asRead (h : acl.Odd) :
    acl.asRead.covers role = isNestedHierarchy (acl.roles.values.headD []) role := by
  rw [asRead, if_pos h]
  obtain ⟨-, hr⟩ := h
  rw [isRecursiveACL, Bool.and_eq_true, decide_eq_true_eq] at hr
  obtain ⟨hlength, hr⟩ := hr
  obtain ⟨value, hvalue⟩ := length_eq_one_iff.1 hlength
  dsimp only at hvalue hr
  rw [hvalue] at hr ⊢
  have hr : isRecursive value = true := hr
  rw [covers_eq rfl]
  simp [hr, isNestedHierarchy_eq hr]

/-- **The approver reads each ACL as it is made**, and the first one decides that then matches. -/
theorem approved_split_asRead : approved permissive subject (entityObject role) (acl.split ++ tail) =
    if acl.asRead.applies subject role then acl.asRead.verdict subject
    else approved permissive subject (entityObject role) tail := by
  by_cases hodd : acl.Odd
  · have hprincipals : acl.asRead.principals = acl.principals := by rw [asRead, if_pos hodd]
    have htype : acl.asRead.roles.type = .some := by rw [asRead, if_pos hodd]
    rw [applies, covers_asRead hodd, verdict, hprincipals, htype]
    by_cases hm : matchesAcl subject acl.principals = true
    · rw [approved_odd hodd hm, hm]
      simp
    · rw [approved_split fun h => absurd h hm]
      simp [applies, hm]
  · rw [approved_split fun _ => hodd, asRead, if_neg hodd]

theorem approved_asRead : ∀ {acls : List RoleAcl},
    approved permissive subject (entityObject role) (createHierarchicalRoleACLs acls) =
      decision permissive subject role (acls.map asRead)
  | [] => rfl
  | acl :: acls => by
    rw [createHierarchicalRoleACLs, flatMap_cons, approved_split_asRead, map_cons, decision]
    exact if_congr Iff.rfl rfl approved_asRead

/-- The first ACL that matches, if it is odd, says what is decided as it and those after it are read. -/
def FirstSaysSo (permissive : Bool) (subject : Entity) (role : Text) (acls : List RoleAcl) : Prop :=
  ∀ front acl rest, acls = front ++ acl :: rest → (∀ other ∈ front, other.applies subject role = false) →
    acl.applies subject role = true → acl.Odd →
    decision permissive subject role ((acl :: rest).map asRead) = acl.verdict subject

theorem firstSaysSo_skip (h : acl.applies subject role = false) :
    FirstSaysSo permissive subject role (acl :: acls) ↔ FirstSaysSo permissive subject role acls := by
  constructor
  · intro hfirst front other rest heq hfront
    exact hfirst (acl :: front) other rest (by rw [heq, cons_append]) (forall_mem_cons.2 ⟨h, hfront⟩)
  · rintro hfirst (_ | ⟨a, front⟩) other rest heq hfront ha
    · cases heq
      cases h.symm.trans ha
    · cases heq
      exact hfirst front other rest rfl (forall_mem_cons.1 hfront).2 ha

theorem firstSaysSo_first (h : acl.applies subject role = true) :
    FirstSaysSo permissive subject role (acl :: rest) ↔
      (acl.Odd → decision permissive subject role ((acl :: rest).map asRead) = acl.verdict subject) := by
  constructor
  · exact fun hfirst => hfirst [] acl rest rfl (forall_mem_nil _) h
  · rintro hodd (_ | ⟨a, front⟩) other rest' heq hfront -
    · cases heq
      exact hodd
    · cases heq
      cases h.symm.trans (forall_mem_cons.1 hfront).1

end

/-- The approver decides a request as the first ACL that matches exactly if that ACL is not odd, or is no matter. -/
theorem approved_iff : ∀ {acls : List RoleAcl},
    approved permissive subject (entityObject role) (createHierarchicalRoleACLs acls) = decision permissive subject role acls ↔
      FirstSaysSo permissive subject role acls
  | [] => iff_of_true rfl fun front acl rest heq => by simp at heq
  | acl :: acls => by
    cases ha : acl.applies subject role with
    | false =>
      have hplain : matchesAcl subject acl.principals = true → ¬acl.Odd := fun hm hodd => by
        simp [applies, hm, covers, hodd.1] at ha
      rw [createHierarchicalRoleACLs, flatMap_cons, approved_split hplain, decision, ha, firstSaysSo_skip ha]
      exact approved_iff
    | true =>
      rw [firstSaysSo_first ha, decision, ha, if_pos rfl]
      by_cases hodd : acl.Odd
      · rw [approved_asRead]
        exact ⟨fun h _ => h, fun h => h hodd⟩
      · rw [createHierarchicalRoleACLs, flatMap_cons, approved_split fun _ => hodd, ha, if_pos rfl]
        exact iff_of_true rfl fun h => absurd h hodd

/-- **The first ACL that matches a request decides it exactly if** it is not one for any or for no role with one value, a
recursive one, or what is decided as such ones are read happens to be what it says; and a framework may register with its roles if it may
with each of them. -/
theorem first_match_iff (acls : List RoleAcl) (permissive : Bool) (principal : Option Text) :
    (∀ role, approved permissive (entitySubject principal) (entityObject role) (createHierarchicalRoleACLs acls) =
        decision permissive (entitySubject principal) role acls ↔
      FirstSaysSo permissive (entitySubject principal) role acls) ∧
    ∀ roles, roles ≠ [] →
      (approvedRoles permissive (entitySubject principal) roles (createHierarchicalRoleACLs acls) = true ↔
        ∀ role ∈ roles, approved permissive (entitySubject principal) (entityObject role) (createHierarchicalRoleACLs acls) =
          true) := by
  refine ⟨fun _ => approved_iff, fun roles hn => ?_⟩
  simp [approvedRoles, hn]

/-- **Nobody is to get a role, and yet a role is given**: `NONE` with the value `a/%`, and the role `a/b`. -/
theorem none_allows :
    let acls : List RoleAcl := [⟨{ type := .any }, { type := .none, values := [['a', '/', '%']] }⟩]
    approved false (entitySubject none) (entityObject ['a', '/', 'b']) (createHierarchicalRoleACLs acls) = true ∧
      decision false (entitySubject none) ['a', '/', 'b'] acls = false := by
  decide

end Clusterd.Authorizer
