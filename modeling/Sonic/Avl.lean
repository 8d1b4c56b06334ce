import Mathlib.Logic.Function.Basic
import Sonic.BalancedTree

/-! # The AVL tree of fpinfra

The nodes and the items of a tree live in two heaps of fixed size; what is not in use is on two
linked lists. Insertion and deletion walk down the tree in a loop, deletion with the path in an
array, and repair the balances on the way back. The header of the library is not in the repository:
`maxDepth` stands for `AVL_MAX_DEPTH`, and the loops that have no bound of their own get it too. -/

namespace Sonic.Avl

/-- The address of a node: the one inside the tree structure, or a cell of the table heap. -/
inductive Addr where
  | root
  | cell (i : Nat)
  deriving DecidableEq

/-- The fields of the nodes, of the data cells and of the tree. -/
structure AvlTree (α : Type*) where
  link : Addr → Dir → Option Nat
  balance : Nat → Int
  balanceNeeded : Nat → Dir
  data : Nat → Nat
  items : Nat → α
  next : Nat → Option Nat
  currentTableHeap : Option Nat
  currentDataHeap : Option Nat
  count : Nat

abbrev Links := Addr → Dir → Option Nat

def Links.set (link : Links) (a : Addr) (d : Dir) (p : Option Nat) : Links :=
  fun b e => if b = a ∧ e = d then p else link b e

section
variable {α : Type*}

namespace AvlTree

def setLink (t : AvlTree α) (a : Addr) (d : Dir) (p : Option Nat) : AvlTree α :=
  { t with link := Links.set t.link a d p }

def setBalance (t : AvlTree α) (i : Nat) (b : Int) : AvlTree α := { t with balance := Function.update t.balance i b }

def setBalanceNeeded (t : AvlTree α) (i : Nat) (d : Dir) : AvlTree α :=
  { t with balanceNeeded := Function.update t.balanceNeeded i d }

end AvlTree

/-! ## The heaps -/

def avlNewNewNode (t : AvlTree α) : Option (Nat × AvlTree α) :=
  t.currentTableHeap.map fun root => (root, { t with currentTableHeap := t.link (.cell root) .right })

def avlNewNewDataNode (t : AvlTree α) : Option (Nat × AvlTree α) :=
  t.currentDataHeap.map fun ptr => (ptr, { t with currentDataHeap := t.next ptr })

/-- The cell is cleared; `default` is an item of zeros. -/
def avlNewFreeDataNode [Inhabited α] (t : AvlTree α) (ptr : Nat) : AvlTree α :=
  { t with
    items := Function.update t.items ptr default
    next := Function.update t.next ptr t.currentDataHeap
    currentDataHeap := some ptr }

/-- The node is cleared; nothing reads its data pointer from then on. -/
def avlNewFreeNode (t : AvlTree α) (rootp : Nat) : AvlTree α :=
  { t with
    link := Links.set (Links.set t.link (.cell rootp) .left none) (.cell rootp) .right t.currentTableHeap
    balance := Function.update t.balance rootp 0
    balanceNeeded := Function.update t.balanceNeeded rootp .left
    currentTableHeap := some rootp }

/-- The two free lists run through the heaps. -/
def purgeLoop (t : AvlTree α) (maxEntries : Nat) : AvlTree α :=
  (List.range maxEntries).foldl (fun t i => { t with
    link := Links.set (Links.set t.link (.cell i) .left none) (.cell i) .right (some (i + 1))
    next := Function.update t.next i (some (i + 1)) }) t

/-- The last cells are closed after the loop. -/
def avlPurgeAvlTree (t : AvlTree α) (maxEntries : Nat) : AvlTree α :=
  let t := purgeLoop { t with
    link := Links.set (Links.set t.link .root .left none) .root .right none
    count := 0
    currentTableHeap := some 0
    currentDataHeap := some 0 } maxEntries
  if 0 < maxEntries then
    { t with
      link := Links.set t.link (.cell (maxEntries - 1)) .right none
      next := Function.update t.next (maxEntries - 1) none }
  else t

/-- Both heaps are cleared first. -/
def avlCreateAvlTree [Inhabited α] (maxEntries : Nat) : AvlTree α :=
  avlPurgeAvlTree ⟨fun _ _ => none, fun _ => 0, fun _ => .left, fun _ => 0, fun _ => default, fun _ => none, none,
    none, 0⟩
    maxEntries

def swapNodes (t : AvlTree α) (direction : Dir) (oldUpper oldLower : Nat) : AvlTree α :=
  let t := t.setLink (.cell oldUpper) direction (t.link (.cell oldLower) direction.other)
  let t := t.setLink (.cell oldLower) direction.other (some oldUpper)
  (t.setBalance oldUpper 0).setBalance oldLower 0

/-- The balances of the lower nodes, by that of the node which comes up. -/
def rotateBalances (t : AvlTree α) (direction : Dir) (node1 node2 node3 : Nat) : AvlTree α :=
  let t := (t.setBalance node2 0).setBalance node1 0
  let t := match direction with
    | .right =>
      if t.balance node3 < 0 then t.setBalance node1 1
      else if t.balance node3 > 0 then t.setBalance node2 (-1) else t
    | .left =>
      if t.balance node3 > 0 then t.setBalance node1 (-1)
      else if t.balance node3 < 0 then t.setBalance node2 1 else t
  t.setBalance node3 0

def rotateNodes (t : AvlTree α) (otherDirection : Dir) (node1 node2 : Nat) : Option (Nat × AvlTree α) :=
  let direction := otherDirection.other
  (t.link (.cell node2) direction).map fun node3 =>
    let t := t.setLink (.cell node2) direction (t.link (.cell node3) otherDirection)
    let t := t.setLink (.cell node3) otherDirection (some node2)
    let t := t.setLink (.cell node1) otherDirection (t.link (.cell node3) direction)
    let t := t.setLink (.cell node3) direction (some node1)
    (node3, rotateBalances t direction node1 node2 node3)

variable (compare : α → α → Int) (maxDepth : Nat)

def avlCompareKey (item dataItem : α) : Ordering :=
  if compare item dataItem < 0 then .lt else if compare item dataItem > 0 then .gt else .eq

/-- One of the comparators that come with the library; the item is its key. -/
def avlCompareULong32 (va vb : UInt32) : Int := if va = vb then 0 else if va > vb then 1 else -1

/-- The side on which the walk goes on. -/
def side : Ordering → Option Dir
  | .lt => some .left
  | .gt => some .right
  | .eq => none

inductive Flags where
  | exact
  | next
  deriving DecidableEq

/-- The last node that was saved, and whether the walk stopped there. -/
def searchLoop (t : AvlTree α) (key : α) (flags : Flags) : Nat → Option Nat → Option Nat → Option (Option Nat × Bool)
  | _, none, savedNode => some (savedNode, false)
  | 0, some _, _ => none
  | fuel + 1, some ptr, savedNode =>
    match avlCompareKey compare key (t.items (t.data ptr)) with
    | .eq => if flags = .exact then some (some ptr, true) else searchLoop t key flags fuel
        (t.link (.cell ptr) .right) savedNode
    | .lt => searchLoop t key flags fuel (t.link (.cell ptr) .left) (some ptr)
    | .gt => searchLoop t key flags fuel (t.link (.cell ptr) .right) savedNode

/-- The data cell of the item that matches. -/
def avlSearch (t : AvlTree α) (key : α) (flags : Flags) : Option (Option Nat) :=
  (searchLoop compare t key flags maxDepth (t.link .root .left) none).map fun (savedNode, foundEqual) =>
    if foundEqual ∨ flags = .next then savedNode.map t.data else none

/-! ## Insertion -/

/-- How the walk to the place of an item ends. -/
inductive FindStop where
  | found (node2 : Nat)
  | added (newNode node : Nat) (baseNode : Addr)

/-- `node` is the last node on the way that is not even, and `baseNode` the one above it. -/
def findLoop (item : α) : Nat → AvlTree α → Addr → Nat → Nat → Option (FindStop × AvlTree α)
  | 0, _, _, _, _ => none
  | depth + 1, t, baseNode, node, node2 =>
    match side (avlCompareKey compare item (t.items (t.data node2))) with
    | none => some (.found node2, t)
    | some d =>
      let t := t.setBalanceNeeded node2 d
      match t.link (.cell node2) d with
      | none => (avlNewNewNode t).map fun (newNode, t) =>
        (.added newNode node baseNode, t.setLink (.cell node2) d (some newNode))
      | some newNode =>
        if t.balance newNode ≠ 0 then findLoop item depth t (.cell node2) newNode newNode
        else findLoop item depth t baseNode node newNode

/-- The nodes from `shiftNode` down to the new one tip the way the walk went. -/
def balanceLoop (newNode : Nat) : Nat → AvlTree α → Option Nat → Option (AvlTree α)
  | 0, _, _ => none
  | fuel + 1, t, shiftNode =>
    if shiftNode = some newNode then some t
    else shiftNode.bind fun n =>
      balanceLoop newNode fuel (t.setBalance n (t.balanceNeeded n).weight) (t.link (.cell n) (t.balanceNeeded n))

def relink (t : AvlTree α) (baseNode : Addr) (node shiftNode : Nat) : AvlTree α :=
  if baseNode ≠ .root ∧ t.link baseNode .right = some node then t.setLink baseNode .right (some shiftNode)
  else t.setLink baseNode .left (some shiftNode)

def balance (t : AvlTree α) (newNode node : Nat) (baseNode : Addr) (direction : Dir) : Option (AvlTree α) :=
  (balanceLoop newNode maxDepth t (t.link (.cell node) direction)).bind fun t =>
    if (direction = .left ∧ t.balance node ≥ 0) ∨ (direction = .right ∧ t.balance node ≤ 0) then
      some (t.setBalance node (t.balance node + direction.weight))
    else (t.link (.cell node) direction).bind fun tempNode =>
      if t.balance tempNode = direction.weight then
        some (relink (swapNodes t direction node tempNode) baseNode node tempNode)
      else (rotateNodes t direction node tempNode).map fun (shiftNode, t) => relink t baseNode node shiftNode

/-- The new node is counted and filled in. -/
def newLeaf (t : AvlTree α) (newNode item : Nat) : AvlTree α :=
  { t with
    count := t.count + 1
    data := Function.update t.data newNode item
    link := Links.set (Links.set t.link (.cell newNode) .left none) (.cell newNode) .right none
    balance := Function.update t.balance newNode 0 }

/-- The data cell of the node that is found or added. -/
def avlFindEntry (t : AvlTree α) (item : Nat) : Option (Nat × AvlTree α) :=
  match t.link .root .left with
  | none => (avlNewNewNode t).map fun (newNode, t) =>
      (item, newLeaf (t.setLink .root .left (some newNode)) newNode item)
  | some node => (findLoop compare (t.items item) maxDepth t .root node node).bind fun (stop, t) =>
    match stop with
    | .found node2 => some (t.data node2, t)
    | .added newNode node baseNode =>
      (balance maxDepth (newLeaf t newNode item) newNode node baseNode (t.balanceNeeded node)).map fun t => (item, t)

/-- What an insertion returns: nothing, the cell of the item with its key, or its own argument. -/
inductive Inserted where
  | null
  | duplicate (entry : Nat)
  | item

def avlAddEntry [Inhabited α] (t : AvlTree α) (item : α) : Option (Inserted × AvlTree α) :=
  match avlNewNewDataNode t with
  | none => (avlSearch compare maxDepth t item .exact).map fun exactEntry =>
    (exactEntry.elim .item .duplicate, t)
  | some (newEntry, t) =>
    (avlFindEntry compare maxDepth { t with items := Function.update t.items newEntry item } newEntry).map fun (p, t) =>
      if p ≠ newEntry then (.duplicate p, avlNewFreeDataNode t newEntry) else (.null, t)

def avlInsertEntry [Inhabited α] (t : AvlTree α) (item : α) : Option (Inserted × AvlTree α) :=
  avlAddEntry compare maxDepth t item

/-- The node of the item, and the path to it. -/
def removeLoop (t : AvlTree α) (item : α) : Nat → Nat → List (Addr × Dir) → Option (Option (Nat × List (Addr × Dir)))
  | 0, _, _ => none
  | depth + 1, node, path =>
    match side (avlCompareKey compare item (t.items (t.data node))) with
    | none => some (some (node, path))
    | some d =>
      match t.link (.cell node) d with
      | none => some none
      | some child => removeLoop t item depth child ((.cell node, d) :: path)

/-- Down the left links, with the nodes on the way. -/
def leftmost (t : AvlTree α) : Nat → Nat → Nat → List (Addr × Dir) → Option (Nat × Nat × List (Addr × Dir))
  | 0, _, _, _ => none
  | fuel + 1, tempNode, node2, path =>
    match t.link (.cell node2) .left with
    | none => some (tempNode, node2, path)
    | some child => leftmost t fuel node2 child ((.cell node2, .left) :: path)

/-- The node is taken out of the links, and the path is continued to where the tree has become
lower. -/
def unlink (t : AvlTree α) (node : Nat) (path : List (Addr × Dir)) : Option (List (Addr × Dir) × AvlTree α) :=
  path.head?.bind fun nodePtr =>
    match t.link (.cell node) .right with
    | none =>
      let left := t.link (.cell node) .left
      let t := t.setLink nodePtr.1 nodePtr.2 left
      some (path, left.elim t fun n => t.setBalance n 0)
    | some tempNode =>
      match t.link (.cell tempNode) .left with
      | none =>
        let t := t.setLink (.cell tempNode) .left (t.link (.cell node) .left)
        let t := t.setBalance tempNode (t.balance node)
        some ((.cell tempNode, .right) :: path, t.setLink nodePtr.1 nodePtr.2 (some tempNode))
      | some node2 =>
        (leftmost t maxDepth tempNode node2 [(.cell tempNode, .left)]).map fun (tempNode, node2, chain) =>
          let t := t.setLink (.cell node2) .left (t.link (.cell node) .left)
          let t := t.setLink (.cell tempNode) .left (t.link (.cell node2) .right)
          let t := t.setLink (.cell node2) .right (t.link (.cell node) .right)
          let t := t.setBalance node2 (t.balance node)
          (chain ++ (.cell node2, .right) :: path, t.setLink nodePtr.1 nodePtr.2 (some node2))

/-- The node that has come up, if any, and whether the balancing is done. -/
def removeAndBalance (t : AvlTree α) (node : Nat) (direction : Dir) : Option (Option Nat × Bool × AvlTree α) :=
  let otherDirection := direction.other
  if t.balance node = direction.weight then some (none, false, t.setBalance node 0)
  else if t.balance node = 0 then some (none, true, t.setBalance node otherDirection.weight)
  else
    match t.link (.cell node) otherDirection with
    | none => some (none, true, t)
    | some tempNode =>
      if t.balance tempNode = 0 then
        let t := t.setLink (.cell node) otherDirection (t.link (.cell tempNode) direction)
        let t := t.setLink (.cell tempNode) direction (some node)
        some (some tempNode, true, t.setBalance tempNode direction.weight)
      else if t.balance tempNode = otherDirection.weight then
        some (some tempNode, false, swapNodes t otherDirection node tempNode)
      else (rotateNodes t otherDirection node tempNode).map fun (node3, t) => (some node3, false, t)

/-- Back along the path, up to the node inside the tree structure. -/
def rebalance : List (Addr × Dir) → AvlTree α → Option (AvlTree α)
  | (.cell node, d) :: (parent, pd) :: path, t =>
    (removeAndBalance t node d).bind fun (tempNode, done, t) =>
      let t := tempNode.elim t fun n => t.setLink parent pd (some n)
      if done then some t else rebalance ((parent, pd) :: path) t
  | _, t => some t

/-- The data cell of the item that is removed. -/
def avlRemoveEntry [Inhabited α] (t : AvlTree α) (item : α) : Option (Option Nat × AvlTree α) :=
  match t.link .root .left with
  | none => some (none, t)
  | some node => (removeLoop compare t item (maxDepth - 1) node [(.root, .left)]).bind fun found =>
    match found with
    | none => some (none, t)
    | some (node, path) =>
      (unlink maxDepth t node path).bind fun (path, t') =>
        (rebalance path (avlNewFreeNode t' node)).map fun t' =>
          (some (t.data node), avlNewFreeDataNode { t' with count := t'.count - 1 } (t.data node))

def avlDeleteEntry [Inhabited α] (t : AvlTree α) (item : α) : Option (Option Nat × AvlTree α) :=
  avlRemoveEntry compare maxDepth t item

end

end Sonic.Avl
