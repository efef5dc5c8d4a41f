import Slience.Redis.CommandKeys
import Slience.Redis.Hiredis
import Slience.Redis.KeySlot

/-!
# A command for a cluster

`redis_cluster_command_execute` (`hircluster.cpp`) sends a command to the node that has its slot.
A node that has not, or not yet, the keys answers with an error that says where to ask, or to ask
again; the client follows it until it was sent on too often.

What the connections and the table of the nodes do is a parameter, with a state of its own.
Errors for want of memory are left out.
-/

namespace Slience

namespace Redis

/-- `CLUSTER_ERR_TYPE` -/
inductive ClusterErrType where
  | notErr | moved | ask | tryagain | crossslot | clusterdown | sentinel
  deriving DecidableEq

/-- The errors that send a command on, in the order of the tests. -/
def clusterErrors : List (Text × ClusterErrType) :=
  [(lit "MOVED", .moved), (lit "ASK", .ask), (lit "TRYAGAIN", .tryagain),
    (lit "CROSSSLOT", .crossslot), (lit "CLUSTERDOWN", .clusterdown)]

/-- `cluster_reply_error_type` -/
def clusterReplyErrorType : ReplyObject → ClusterErrType
  | .string .error str =>
      (clusterErrors.find? fun e ↦ e.1.length < str.length && e.1.isPrefixOf str).elim
        .sentinel Prod.snd
  | _ => .notErr

/-- The reply sends the command on. -/
def Redirects (reply : ReplyObject) : Prop :=
  clusterReplyErrorType reply ≠ .notErr ∧ clusterReplyErrorType reply ≠ .sentinel

instance (reply : ReplyObject) : Decidable (Redirects reply) :=
  inferInstanceAs (Decidable (_ ∧ _))

/-- `redisClusterContext`, as far as it is used here. -/
structure ClusterContext (σ : Type) where
  err : Option RedisError
  retryCount : ℕ
  maxRedirectCount : ℕ
  nodes : σ

/-- The nodes of a cluster with their connections. -/
structure ClusterNet (σ ν : Type) where
  /-- `node_get_by_table` -/
  nodeGetByTable : σ → ℕ → Option ν
  /-- `ctx_get_by_node`, and the error of the context -/
  ctxGetByNode : σ → ν → σ × Option (Option RedisError)
  /-- `node_get_witch_connected` -/
  nodeGetWitchConnected : σ → σ × Option ν
  /-- `__redisAppendCommand` on the context of a node -/
  appendCommand : σ → ν → Text → σ × Option RedisError
  /-- `__redisBlockForReply` on it -/
  blockForReply : σ → ν → σ × Except RedisError ReplyObject
  /-- `dictFind` among the nodes -/
  nodeFind : σ → Text → Option ν
  /-- A new master, and `dictAdd` -/
  nodeAdd : σ → Text → Text → ℤ → σ × ν
  /-- `cluster_update_route` -/
  updateRoute : σ → σ × Bool

/-- `sdssplitlen`, where the separator is one byte. -/
def sdssplitlen (s : Text) (sep : Byte) : List Text := if s = [] then [] else s.splitOn sep

/-- `hi_atoi`, for a number that fits into an `int`. -/
def hiAtoi (line : Text) : ℤ :=
  if line = [] ∨ !line.all isDigit then -1
  else line.foldl (fun value b ↦ value * 10 + (b.toNat - 48 : ℕ)) 0

def redisErrClusterTooManyRedirect : ℕ := 6

namespace ClusterContext

variable {σ : Type}

/-- `__redisClusterSetError` -/
def setError (cc : ClusterContext σ) (type : ℕ) (str : Text) : ClusterContext σ :=
  { cc with err := some ⟨type, str.take 127⟩ }

/-- An error of the cluster, and the end of a function. -/
def fail (cc : ClusterContext σ) {α : Type} (type : ℕ) (str : Text) : ClusterContext σ × Option α :=
  (cc.setError type str, none)

end ClusterContext

namespace ClusterNet

variable {σ ν : Type} (net : ClusterNet σ ν)

/-- The context of a node that was found; `null` is the text where there is none. -/
def usable (cc : ClusterContext σ) (node : ν) (null : String) : ClusterContext σ × Option ν :=
  let (s, c) := net.ctxGetByNode cc.nodes node
  let cc := { cc with nodes := s }
  match c with
  | none => cc.fail redisErrOther (lit null)
  | some (some e) => cc.fail e.err e.errstr
  | some none => (cc, some node)

/-- From `retry` to `ask_retry`: the node whose context the command is sent on. -/
def target (cc : ClusterContext σ) (slotNum : ℕ) : ClusterContext σ × Option ν :=
  match net.nodeGetByTable cc.nodes slotNum with
  | none => cc.fail redisErrOther (lit "node get by table error")
  | some node =>
      let (s, c) := net.ctxGetByNode cc.nodes node
      let cc := { cc with nodes := s }
      match c with
      | none => cc.fail redisErrOther (lit "ctx get by node is null")
      | some none => (cc, some node)
      | some (some _) =>
          let (s, node) := net.nodeGetWitchConnected cc.nodes
          let cc := { cc with nodes := s }
          match node with
          | none => cc.fail redisErrOther (lit "no reachable node in cluster")
          | some node =>
              let cc := { cc with retryCount := cc.retryCount + 1 }
              if cc.retryCount > cc.maxRedirectCount then
                cc.fail redisErrClusterTooManyRedirect (lit "too many cluster redirect")
              else net.usable cc node "ctx get by node error"

/-- A command is appended and its reply is read. -/
def exchange (s : σ) (node : ν) (command : Text) : σ × Except RedisError ReplyObject :=
  match net.appendCommand s node command with
  | (s, some e) => (s, .error e)
  | (s, none) => net.blockForReply s node

/-- The same for the cluster, which takes over the error. -/
def send (cc : ClusterContext σ) (node : ν) (command : Text) :
    ClusterContext σ × Option ReplyObject :=
  let (s, r) := net.exchange cc.nodes node command
  let cc := { cc with nodes := s }
  match r with
  | .error e => cc.fail e.err e.errstr
  | .ok reply => (cc, some reply)

/-- `node_get_by_ask_error_reply`: a node that is not known is added under the second part of the
text, which is the slot. -/
def nodeGetByAskErrorReply (cc : ClusterContext σ) (str : Text) : ClusterContext σ × Option ν :=
  match sdssplitlen str 32 with
  | [_, slot, addr] =>
      match sdssplitlen addr 58 with
      | [host, port] =>
          match net.nodeFind cc.nodes addr with
          | some node => (cc, some node)
          | none =>
              let (s, node) := net.nodeAdd cc.nodes slot host (hiAtoi port)
              ({ cc with nodes := s }, some node)
      | _ => cc.fail redisErrOther (lit "ask error reply address part parse error!")
  | _ => cc.fail redisErrOther (lit "ask error reply parse error!")

/-- What a reply that sends the command on leads to: `retry`, or `ask_retry` with a node. -/
def redirect (cc : ClusterContext σ) : ReplyObject → ClusterContext σ × Option (Option ν)
  | .string type str =>
      match clusterReplyErrorType (.string type str) with
      | .moved =>
          let (s, ok) := net.updateRoute cc.nodes
          let cc := { cc with nodes := s }
          if ok then (cc, some none)
          else cc.fail redisErrOther
            (lit "route update error, please recreate redisClusterContext!")
      | .ask =>
          match net.nodeGetByAskErrorReply cc str with
          | (cc, none) => (cc, none)
          | (cc, some node) =>
              match net.usable cc node "ctx get by node error" with
              | (cc, none) => (cc, none)
              | (cc, some node) =>
                  match net.send cc node (commandImage [lit "ASKING"]) with
                  | (cc, none) => (cc, none)
                  | (cc, some _) => (cc, some (some node))
      | _ => (cc, some none)
  | _ => (cc, some none)

/-- The turns from `retry` or `ask_retry` on; each one that is not the last counts. -/
def attempts (slotNum : ℕ) (command : Text) :
    ℕ → Option ν → ClusterContext σ → ClusterContext σ × Option ReplyObject
  | 0, _, cc => (cc, none)
  | fuel + 1, asked, cc =>
      match asked.elim (net.target cc slotNum) fun node ↦ (cc, some node) with
      | (cc, none) => (cc, none)
      | (cc, some node) =>
          match net.send cc node command with
          | (cc, none) => (cc, none)
          | (cc, some reply) =>
              if Redirects reply then
                let cc := { cc with retryCount := cc.retryCount + 1 }
                if cc.retryCount > cc.maxRedirectCount then
                  cc.fail redisErrClusterTooManyRedirect (lit "too many cluster redirect")
                else match net.redirect cc reply with
                  | (cc, none) => (cc, none)
                  | (cc, some asked) => attempts slotNum command fuel asked cc
              else (cc, some reply)

/-- `redis_cluster_command_execute`; there are never more turns. -/
def redisClusterCommandExecute (cc : ClusterContext σ) (slotNum : ℕ) (command : Text) :
    ClusterContext σ × Option ReplyObject :=
  net.attempts slotNum command (cc.maxRedirectCount + 1) none cc

end ClusterNet

end Redis

end Slience
