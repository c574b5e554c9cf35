/-
# Services.Inbox — the durable multi-writer command queue

Any process drops a request file under a fresh stem; the owner drains the
directory in file-name order and unlinks every file it read.  A file that is not
JSON is dropped.  A request the owner rejects is parked next to the inbox.
-/
import KoyuRuntime.Host.Json
import Mathlib.Data.List.Sort
import Mathlib.Data.String.Basic

namespace KoyuRuntime.Services

open Host

set_option autoImplicit false

/-- The inbox directory and its quarantine.  `files` maps a file name to the
object `json.loads` reads there, or `none` for malformed text. -/
structure Inbox where
  files : List (String × Option JsonObj)
  quarantined : List (JsonObj × String)

namespace Inbox

/-- `submit`: the rename publishes the file as `stem.json`. -/
def submit (box : Inbox) (stem : String) (content : Option JsonObj) : Inbox :=
  let name := stem ++ ".json"
  { box with files := box.files.filter (fun f => decide (f.1 ≠ name)) ++ [(name, content)] }

/-- The requests a drain returns now: sorted by file name, malformed ones dropped. -/
def requests (box : Inbox) : List JsonObj :=
  (box.files.insertionSort fun f g => f.1 ≤ g.1).filterMap Prod.snd

def drain (box : Inbox) : List JsonObj × Inbox := (box.requests, { box with files := [] })

/-- `quarantine`: one file per call, under a fresh name. -/
def quarantine (box : Inbox) (req : JsonObj) (reason : String) : Inbox :=
  { box with quarantined := box.quarantined ++ [(req, reason)] }

@[simp] theorem drain_files (box : Inbox) : box.drain.2.files = [] := rfl

@[simp] theorem drain_requests (box : Inbox) : box.drain.1 = box.requests := rfl

theorem requests_of_files_nil {box : Inbox} (empty : box.files = []) : box.requests = [] := by
  simp [requests, empty]

end Inbox

end KoyuRuntime.Services
