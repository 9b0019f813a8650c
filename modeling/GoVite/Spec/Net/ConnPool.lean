import Mathlib.Data.Int.Notation
import Mathlib.Data.List.Basic
import Mathlib.Logic.Function.Basic

/-! The connections that chunks are downloaded from (`downloadConnPool` in `net/sync_conn.go`). -/

namespace GoVite.Net
open Function

/-- A peer of the peer set. -/
structure DownloadPeer where
  id : ℕ
  height : ℕ

/-- A sync connection, with what `chooseSource` asks of it. -/
structure SyncConn where
  peer : DownloadPeer
  busy : Bool := false

/-- `mi` gives positions in `l`, `blackList` the second in which a block ends. -/
structure DownloadConnPool where
  mi : ℕ → Option ℕ := fun _ => none
  l : List SyncConn := []
  blackList : ℕ → Option ℤ := fun _ => none

/-- What `chooseSource` returns; `wait` has neither a peer nor a connection. -/
inductive Source
  | noSuitablePeer
  | peer (p : DownloadPeer)
  | conn (c : SyncConn)
  | wait

namespace DownloadConnPool

/-- Only the peer of the connection matters. Behind the end of the list nothing is deleted. -/
def delConn (fp : DownloadConnPool) (c : SyncConn) : DownloadConnPool :=
  match fp.mi c.peer.id with
  | some i => { fp with mi := update fp.mi c.peer.id none, l := fp.l.eraseIdx i }
  | none => fp

/-- The pool, and whether the connection was added. -/
def addConn (fp : DownloadConnPool) (c : SyncConn) : DownloadConnPool × Bool :=
  match fp.mi c.peer.id with
  | some _ => (fp, false)
  | none => ({ fp with mi := update fp.mi c.peer.id (some fp.l.length), l := fp.l ++ [c] }, true)

/-- The second half of `sortLocked`, on the list in its new order. -/
def sortLocked (fp : DownloadConnPool) (l : List SyncConn) : DownloadConnPool :=
  { fp with l, mi := l.zipIdx.foldl (fun mi c => update mi c.1.peer.id (some c.2)) fp.mi }

/-- The answer of `blocked`, which also deletes an expired entry. -/
def blocked (fp : DownloadConnPool) (now : ℤ) (id : ℕ) : Bool := (fp.blackList id).any (now < ·)

/-- Tall enough peers without a connection that stay after the look into the blacklist. -/
def candidates (fp : DownloadConnPool) (now : ℤ) (tall : List DownloadPeer) : List DownloadPeer :=
  tall.filter fun p => !fp.l.any (·.peer.id = p.id) && !(fp.blackList p.id).any (· < now)

/-- The loop over the connections from the position `i` on; `new` is the peer of a new connection, if one is wanted. -/
def chooseConn (height n : ℕ) (new : Option DownloadPeer) : ℕ → List SyncConn → Option Source
  | _, [] => none
  | i, c :: l =>
    if c.busy ∨ c.peer.height < height then chooseConn height n new (i + 1) l
    else if 3 * (i + 1) < n + 1 then some (.conn c)
    else some (new.elim (.conn c) .peer)

/-- `chooseSource`, with the list in the order of the speeds, the peers in the order in which the map is passed through,
and the random choice. -/
def chooseSource (fp : DownloadConnPool) (peers : List DownloadPeer) (now : ℤ) (height : ℕ) (createNew : Bool)
    (sorted : List SyncConn) : Source × DownloadConnPool :=
  let tall := peers.filter (height ≤ ·.height)
  if tall.isEmpty then (.noSuitablePeer, fp)
  else
    let new := (fp.candidates now tall).head?
    let chosen := chooseConn height sorted.length (if createNew then new else none) 0 sorted
    (chosen.getD (new.elim .wait .peer), fp.sortLocked sorted)

end DownloadConnPool
end GoVite.Net
