import SynaMcp.Store.State

/-! The deletions on Postgres, each one text of several commands with one parameter. -/
namespace SynaMcp.Deletes

/-- `DELETE FROM table WHERE column=$1` -/
structure Command where
  (table column : String)

/-- The rows of every table, each with the text in its columns. -/
abbrev Database := String → List (String → String)

def Command.exec (c : Command) (id : String) (db : Database) : Database :=
  Function.update db c.table ((db c.table).filter fun row => row c.column ≠ id)

def errMultiple : String := "cannot insert multiple commands into a prepared statement"

/-- `pool.Exec` with a parameter: the text is prepared first, and has to be one command. -/
def poolExec (commands : List Command) (id : String) (db : Database) : Database × Option String :=
  match commands with
  | [] => (db, none)
  | [c] => (c.exec id db, none)
  | _ => (db, some errMultiple)

/-- Returns nil and leaves no row that refers to the id. -/
def Works (commands : List Command) (id : String) (db : Database) : Prop :=
  (poolExec commands id db).2 = none ∧ ∀ c ∈ commands, ∀ row ∈ (poolExec commands id db).1 c.table, row c.column ≠ id

theorem works_iff {id db} : ∀ {commands}, Works commands id db ↔ commands.length ≤ 1
  | [] => by simp [Works, poolExec]
  | [c] => by simp [Works, poolExec, Command.exec]
  | _ :: _ :: _ => by simp [Works, poolExec]

inductive Delete where
  | user
  | group
  | storage
  | token
  | server
  deriving DecidableEq, Repr

/-- The commands of the text, in its order. -/
def Delete.commands : Delete → List Command
  | .user => [⟨"access_group_memberships", "user_id"⟩, ⟨"access_users", "id"⟩]
  | .group => [⟨"access_group_memberships", "group_id"⟩, ⟨"access_groups", "id"⟩]
  | .storage => [⟨"storage_acl_bindings", "storage_id"⟩, ⟨"access_token_storages", "storage_id"⟩, ⟨"storages", "id"⟩]
  | .token => [⟨"access_token_mcp_servers", "token_id"⟩, ⟨"access_token_storages", "token_id"⟩, ⟨"access_tokens", "id"⟩]
  | .server => [⟨"access_token_mcp_servers", "server_id"⟩, ⟨"mcp_server_tools", "server_id"⟩,
      ⟨"mcp_server_resources", "server_id"⟩, ⟨"mcp_server_prompts", "server_id"⟩,
      ⟨"mcp_server_acl_bindings", "server_id"⟩, ⟨"mcp_servers", "id"⟩]

/-- A deletion works exactly where its text is a single command, which it is for none of
the five: each fails and changes nothing. -/
theorem deletes_work_iff (delete : Delete) (id : String) (db : Database) :
    (Works delete.commands id db ↔ delete.commands.length ≤ 1) ∧
      poolExec delete.commands id db = (db, some errMultiple) := by
  refine ⟨works_iff, ?_⟩
  cases delete with
  | user | group | storage | token | server => rfl

theorem deleted_user_stays : poolExec Delete.user.commands "u" (fun _ => [fun _ => "u"]) =
    (fun _ => [fun _ => "u"], some errMultiple) :=
  rfl

end SynaMcp.Deletes
