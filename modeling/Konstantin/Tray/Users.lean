import Konstantin.Daemon.Auth

/-!
# Whom the tray marks as an administrator

`read_admin_members` and `parse_admin_members` of `crates/tray/src/users.rs`,
beside the daemon's reading of the same text.  The tray looks at every line behind
the first header, the daemon stops at the end of the section.
-/

namespace Konstantin
namespace Tray

open Text Daemon

namespace Users

/-- The loop of `parse_admin_members`. -/
def collectMembers : List (List Char) → Finset String → Bool → Finset String
  | [], members, _ => members
  | line :: rest, members, inSection =>
    match behindLabel membershipLabel line with
    | some behind => collectMembers rest (members ∪ names behind) true
    | none =>
      if inSection then collectMembers rest (members ∪ names line) inSection
      else collectMembers rest members inSection

def parseAdminMembers (stdout : String) : Finset String :=
  collectMembers (lines stdout.toList) ∅ false

def readAdminMembers : Except String DsclOutput → Except String (Finset String)
  | .error _ => .error "reading admin group membership"
  | .ok output => if !output.success then .ok ∅ else .ok (parseAdminMembers output.stdout)

/-- `is_admin` of a user that `enumerate` lists. -/
def isAdmin (dscl : Except String DsclOutput) (username : String) : Bool :=
  match readAdminMembers dscl with
  | .ok admins => decide (username ∈ admins)
  | .error _ => false

theorem collectMembers_inside (ls : List (List Char)) (members : Finset String) :
    collectMembers ls members true = members ∪ listedIn ls := by
  induction ls generalizing members with
  | nil => exact (Finset.union_empty members).symm
  | cons line ls ih =>
    cases hlabel : behindLabel membershipLabel line with
    | some behind =>
      rw [collectMembers, hlabel]
      dsimp only
      rw [ih, listedIn_cons, listed_of_header hlabel, Finset.union_assoc]
    | none =>
      rw [collectMembers, hlabel]
      dsimp only
      rw [if_pos rfl, ih, listedIn_cons, listed_of_not_header hlabel, Finset.union_assoc]

theorem parseAdminMembers_eq (stdout : String) :
    parseAdminMembers stdout = listedIn (fromHeader (lines stdout.toList)) := by
  rw [parseAdminMembers, outside_eq (f := collectMembers) (fun _ => rfl)
    (fun line ls out hlabel => by rw [collectMembers, hlabel]; rfl)
    (fun line behind ls out hlabel => by rw [collectMembers, collectMembers, hlabel]),
    collectMembers_inside, Finset.empty_union]

/-- The two readings of one output give one set, and mark whom the daemon allows. -/
structure Agree (stdout : String) : Prop where
  members : Daemon.parseAdminMembers stdout = parseAdminMembers stdout
  marks : ∀ (uid : UInt32) (username stderr : String), uid ≠ 0 →
    ((operatorFromUid (.ok (some username)) (.ok ⟨true, stdout, stderr⟩) uid).allowed = true ↔
      isAdmin (.ok ⟨true, stdout, stderr⟩) username = true)

/-- From the line on at which the daemon stops, no name is listed that is not
listed before. -/
def NothingNew (stdout : String) : Prop :=
  let ls := fromHeader (lines stdout.toList)
  listedIn (ls.dropWhile fun l => !endsMembers l) ⊆ listedIn (ls.takeWhile fun l => !endsMembers l)

theorem members_iff (stdout : String) :
    Daemon.parseAdminMembers stdout = parseAdminMembers stdout ↔ NothingNew stdout := by
  rw [Daemon.parseAdminMembers_eq, parseAdminMembers_eq, NothingNew]
  have hsplit := List.takeWhile_append_dropWhile (p := fun l => !endsMembers l)
    (l := fromHeader (lines stdout.toList))
  have hunion := listedIn_append
    ((fromHeader (lines stdout.toList)).takeWhile fun l => !endsMembers l)
    ((fromHeader (lines stdout.toList)).dropWhile fun l => !endsMembers l)
  rw [hsplit] at hunion
  rw [hunion]
  constructor
  · intro h
    rw [h]
    exact Finset.subset_union_right
  · exact fun h => (Finset.union_eq_left.mpr h).symm

/-- The readings agree exactly where nothing new stands behind the section. -/
theorem agree_iff (stdout : String) : Agree stdout ↔ NothingNew stdout := by
  refine ⟨fun h => (members_iff stdout).mp h.members, fun h => ?_⟩
  have hmembers := (members_iff stdout).mpr h
  refine ⟨hmembers, fun uid username stderr huid => ?_⟩
  have hname : resolveUsername uid (.ok (some username)) = .ok username := rfl
  rw [allowed_iff huid hname]
  have hdaemon : adminMembers (.ok ⟨true, stdout, stderr⟩) =
      .ok (Daemon.parseAdminMembers stdout) := rfl
  have htray : isAdmin (.ok ⟨true, stdout, stderr⟩) username =
      decide (username ∈ parseAdminMembers stdout) := rfl
  rw [hdaemon, htray, hmembers, decide_eq_true_iff]
  constructor
  · rintro ⟨admins, hadmins, hmem⟩
    cases hadmins
    exact hmem
  · exact fun hmem => ⟨_, rfl, hmem⟩

/-- The text of the daemon's test, with an attribute behind the section. -/
theorem agree_fails :
    ¬ Agree "GeneratedUID: ignored\nGroupMembership:\n alice\nPassword: *\n bob\n" := by
  intro h
  have hmembers := h.members
  revert hmembers
  decide

end Users

end Tray
end Konstantin
