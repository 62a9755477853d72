import Clusterd.StoutPath
/-!
# Containers and their cgroups (cgroups v2)

The cgroups of a container are found from its ID: a non-leaf cgroup, below it `leaf` for its processes and `mesos` for the
cgroups of nested containers.  After a restart of the agent the Linux launcher reads the IDs back from the names of the cgroups
under the agent's root.
-/
namespace Clusterd.Cgroups

open Stout Stout.Strings Stout.Path

inductive ContainerId where
  | top (value : Text)
  | nested (parent : ContainerId) (value : Text)
deriving DecidableEq

def ContainerId.value : ContainerId → Text
  | .top value => value
  | .nested _ value => value

def ContainerId.parent : ContainerId → Option ContainerId
  | .top _ => none
  | .nested parent _ => some parent

/-! ## Validation -/

def nameMax : Nat := 255

def maxContainerIdLength : Nat := 242

/-- `iscntrl` in the C locale. -/
def iscntrl (c : Char) : Bool := c.toNat < 32 || c.toNat = 127

def validateID (id : Text) : Option Text :=
  if id = [] then some "ID must not be empty".toList
  else if id.length > nameMax then
    some ("ID must not be greater than ".toList ++ (toString nameMax).toList ++ " characters".toList)
  else if id = ['.'] ∨ id = ['.', '.'] then some ("'".toList ++ id ++ "' is disallowed".toList)
  else if id.any fun c => iscntrl c || c == '/' || c == '\\' then
    some ("'".toList ++ id ++ "' contains invalid characters".toList)
  else none

/-- The checks on one `ContainerID.value`. -/
def validateValue (id : Text) : Option Text :=
  match validateID id with
  | some error => some error
  | none =>
    if id.length > maxContainerIdLength then
      some ("'ContainerID.value' '".toList ++ id ++ "' exceeds the maximum length (".toList ++
        (toString maxContainerIdLength).toList ++ ")".toList)
    else if id.any fun c => c == '.' || c == ' ' then
      some ("'ContainerID.value' '".toList ++ id ++ "' contains invalid characters".toList)
    else none

def validateContainerId : ContainerId → Option Text
  | .top value => validateValue value
  | .nested parent value =>
    match validateValue value with
    | some error => some error
    | none => (validateContainerId parent).map ("'ContainerID.parent' is invalid: ".toList ++ ·)

/-! ## Paths -/

def cgroupSeparator : Text := ['m', 'e', 's', 'o', 's']

def leafName : Text := ['l', 'e', 'a', 'f']

def agentName : Text := ['a', 'g', 'e', 'n', 't']

/-- `buildPath(containerId, separator, JOIN)`. -/
def buildPath (between : Text) : ContainerId → Text
  | .top value => value
  | .nested parent value => join (buildPath between parent) (join between value)

def agent (root : Text) (leaf : Bool) : Text :=
  if leaf then join root (join agentName leafName) else join root agentName

def container (root : Text) (containerId : ContainerId) (leaf : Bool) : Text :=
  if leaf then join root (join (buildPath cgroupSeparator containerId) leafName)
  else join root (buildPath cgroupSeparator containerId)

/-- One turn of the loop of `containerId`. -/
def descend (current : Option ContainerId) (token : Text) : Option ContainerId :=
  if token = cgroupSeparator then current
  else match current with
    | none => some (.top token)
    | some parent => some (.nested parent token)

def containerId (root cgroup : Text) : Option ContainerId :=
  let path := trim cgroup [separator]
  let path := removeSuffix path (separator :: leafName)
  let path := removePrefix path (trim root [separator])
  let tokens := tokenize path separator
  if tokens.length = 0 then none
  else if tokens.getLast? = some agentName then none
  else tokens.foldl descend none

/-! ## The Linux launcher -/

abbrev Launcher := List ContainerId

/-- One turn of the loop of `recoverContainersFromCgroups2`. -/
def recoverCgroup (root : Text) (containers : Launcher) (cgroup : Text) : Launcher :=
  match containerId root cgroup with
  | some id => containers.insert id
  | none => containers

/-- `recoverContainersFromCgroups2`, given what `cgroups2::get` lists. -/
def recoverContainersFromCgroups2 (root : Text) (cgroups : List Text) : Launcher :=
  cgroups.foldl (recoverCgroup root) []

/-- `LinuxLauncherProcess::recover`: the containers known afterwards and the orphans; `states` are the IDs of the
checkpointed `ContainerState`s. -/
def recover (root : Text) (cgroups : List Text) (states : List ContainerId) : Launcher × List ContainerId :=
  let recovered := recoverContainersFromCgroups2 root cgroups
  let containers := states.foldl (fun containers id => containers.insert id) recovered
  (containers, containers.filter fun id => id ∉ states)

/-- `cgroups2::destroy` of a cgroup ends the processes in it and in all cgroups below it. -/
def killed (cgroup : Text) (cgroups : List Text) : List Text :=
  if cgroup ∈ cgroups then cgroups.filter fun other => other = cgroup ∨ startsWith other (cgroup ++ [separator])
  else []

/-- `LinuxLauncherProcess::destroy`: the containers left and the cgroups whose processes are killed. -/
def destroy (root : Text) (cgroups : List Text) (containers : Launcher) (id : ContainerId) : Launcher × List Text :=
  if id ∉ containers then (containers, [])
  else if containers.any fun other => other.parent = some id then
    -- "Container has nested containers"
    (containers, [])
  else (containers.erase id, killed (trim (container root id false) [separator]) cgroups)

/-! ## The cgroups of an agent -/

def ContainerId.names : ContainerId → List Text
  | .top value => [value]
  | .nested parent value => parent.names ++ [cgroupSeparator, value]

/-- The cgroup that the names lead to, as `cgroups2::get` gives it. -/
def cgroup (root : Text) : List Text → Text
  | [] => trim root [separator]
  | name :: names => trim (join root (glue name names)) [separator]

/-- The containers of an agent and the cgroups under its root: those of the agent and of its containers, and further
ones that containers have made below their leaf cgroups. -/
structure Hierarchy where
  containers : List ContainerId
  valid : ∀ id ∈ containers, validateContainerId id = none
  closed : ∀ parent value, .nested parent value ∈ containers → parent ∈ containers
  /-- The containers whose separator cgroup exists. -/
  separated : List ContainerId
  separated_mem : ∀ id ∈ separated, id ∈ containers
  further : List (ContainerId × List Text)
  further_mem : ∀ made ∈ further, made.1 ∈ containers ∧ made.2 ≠ [] ∧ ∀ name ∈ made.2, name ≠ [] ∧ separator ∉ name

def Hierarchy.paths (hierarchy : Hierarchy) : List (List Text) :=
  [[agentName], [agentName, leafName]] ++
    (hierarchy.containers.map ContainerId.names ++
      (hierarchy.containers.map (fun id => id.names ++ [leafName]) ++
        (hierarchy.separated.map (fun id => id.names ++ [cgroupSeparator]) ++
          hierarchy.further.map fun made => made.1.names ++ leafName :: made.2)))

/-- What `cgroups2::get(root)` lists. -/
def Hierarchy.cgroups (root : Text) (hierarchy : Hierarchy) : List Text := hierarchy.paths.map (cgroup root)

end Clusterd.Cgroups
