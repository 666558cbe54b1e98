/-
Module: Nfs4Compound.Rpc.Handles
Layer: Rpc
Purpose: The buffers of a chain lookup: `nfs_allocate_handles` and `nfs_free_handles` of `fs/nfs/dir.c`
  as `nfs_chain_lookup` calls them, for every pattern of failing allocations.
Trusted boundary: `kmalloc` leaves memory as it finds it; `kfree` of NULL does nothing
Main exports: Allocations, nfsAllocateHandles, nfsFreeHandles, HandlesRun, chainLookupBuffers, FreedSafely
-/
import Mathlib.Data.List.Perm.Basic
import Mathlib.Logic.Function.Basic

namespace Nfs4Compound.Rpc

/-! ### Memory -/

/-- What a chain lookup allocates; a label has a text of its own. -/
inductive Buffer where
  | handleArray
  | attrArray
  | labelArray
  | handle (index : Nat)
  | attr (index : Nat)
  | label (index : Nat)
  | labelText (index : Nat)
deriving DecidableEq, Repr

/-- A pointer: NULL, an error pointer, or the address of a buffer. -/
inductive Pointer where
  | null
  | error
  | address (buffer : Buffer)
deriving DecidableEq, Repr

/-- What `nfs4_label_alloc` returns: NULL where no labels are used, `ERR_PTR(-ENOMEM)`, or a label. -/
inductive LabelAlloc where
  | unused
  | failed
  | allocated
deriving DecidableEq, Repr

/-- Which allocations succeed. -/
structure Allocations where
  handleArray : Bool
  attrArray : Bool
  labelArray : Bool
  handle : Nat → Bool
  attr : Nat → Bool
  label : Nat → LabelAlloc

/-- `kmalloc`. -/
def kmalloc (granted : Bool) (buffer : Buffer) : Pointer := if granted then .address buffer else .null

/-- The buffer behind a pointer. -/
def Pointer.buffers : Pointer → List Buffer
  | .address buffer => [buffer]
  | _ => []

namespace Allocations

variable (a : Allocations)

def nfsAllocFhandle (i : Nat) : Pointer := kmalloc (a.handle i) (.handle i)

def nfsAllocFattr (i : Nat) : Pointer := kmalloc (a.attr i) (.attr i)

def nfs4LabelAlloc (i : Nat) : Pointer :=
  match a.label i with
  | .unused => .null
  | .failed => .error
  | .allocated => .address (.label i)

/-- What the allocations for the `i`-th name leave allocated. -/
def madeFor (i : Nat) : List Buffer :=
  (a.nfsAllocFhandle i).buffers ++ (a.nfsAllocFattr i).buffers ++
    match a.label i with
    | .allocated => [.labelText i, .label i]
    | _ => []

end Allocations

/-- The three arrays; a slot is `none` until something is stored in it. -/
structure Arrays where
  fhandles : Pointer
  fattrs : Pointer
  labels : Pointer
  fhandleAt : Nat → Option Pointer
  fattrAt : Nat → Option Pointer
  labelAt : Nat → Option Pointer

namespace Arrays

/-- The arrays, straight from `kmalloc`. -/
def fresh (a : Allocations) : Arrays where
  fhandles := kmalloc a.handleArray .handleArray
  fattrs := kmalloc a.attrArray .attrArray
  labels := kmalloc a.labelArray .labelArray
  fhandleAt _ := none
  fattrAt _ := none
  labelAt _ := none

/-- The `i`-th slots are written. -/
def store (arrays : Arrays) (a : Allocations) (i : Nat) : Arrays :=
  { arrays with
    fhandleAt := Function.update arrays.fhandleAt i (some (a.nfsAllocFhandle i))
    fattrAt := Function.update arrays.fattrAt i (some (a.nfsAllocFattr i))
    labelAt := Function.update arrays.labelAt i (some (a.nfs4LabelAlloc i)) }

end Arrays

/-! ### The functions of the source -/

/-- The loop of `nfs_allocate_handles` for `count` more names from the `i`-th on.  Returns the arrays,
    the buffers it has allocated, and whether it came to the end. -/
def allocateFrom (a : Allocations) : Nat → Nat → Arrays → Arrays × List Buffer × Bool
  | 0, _, arrays => (arrays, [], true)
  | count + 1, i, arrays =>
      let arrays := arrays.store a i
      if a.handle i && a.attr i then
        let (arrays, made, done) := allocateFrom a count (i + 1) arrays
        (arrays, a.madeFor i ++ made, done)
      else
        (arrays, a.madeFor i, false)

/-- `nfs_allocate_handles`; false is `-ENOMEM`. -/
def nfsAllocateHandles (a : Allocations) (size : Nat) : Arrays × List Buffer × Bool :=
  let arrays := Arrays.fresh a
  let made := arrays.fhandles.buffers ++ arrays.fattrs.buffers ++ arrays.labels.buffers
  if a.attrArray && a.handleArray && a.labelArray then
    let (arrays, filled, done) := allocateFrom a size 0 arrays
    (arrays, made ++ filled, done)
  else
    (arrays, made, false)

/-- How freeing can go wrong. -/
inductive FreeFault where
  | noArray
  | neverWritten
  | errorPointer
deriving DecidableEq, Repr

/-- `array[i]`. -/
def readSlot (array : Pointer) (slot : Option Pointer) : Except FreeFault Pointer :=
  match array, slot with
  | .address _, some pointer => .ok pointer
  | .address _, none => .error .neverWritten
  | _, _ => .error .noArray

/-- `kfree`, and so `nfs_free_fhandle` and `nfs_free_fattr`: the buffers that are freed. -/
def kfree : Pointer → Except FreeFault (List Buffer)
  | .null => .ok []
  | .address buffer => .ok [buffer]
  | .error => .error .errorPointer

/-- `nfs4_label_free` of the label in slot `i`: an error pointer is dereferenced. -/
def nfs4LabelFree (i : Nat) : Pointer → Except FreeFault (List Buffer)
  | .null => .ok []
  | .address label => .ok [.labelText i, label]
  | .error => .error .errorPointer

/-- One turn of the loop of `nfs_free_handles`. -/
def freeSlot (arrays : Arrays) (i : Nat) : Except FreeFault (List Buffer) := do
  let handle ← kfree (← readSlot arrays.fhandles (arrays.fhandleAt i))
  let attr ← kfree (← readSlot arrays.fattrs (arrays.fattrAt i))
  let label ← nfs4LabelFree i (← readSlot arrays.labels (arrays.labelAt i))
  return handle ++ attr ++ label

/-- The loop of `nfs_free_handles` for `count` more slots from the `i`-th on. -/
def freeFrom (arrays : Arrays) : Nat → Nat → Except FreeFault (List Buffer)
  | 0, _ => return []
  | count + 1, i => do
      let slot ← freeSlot arrays i
      let rest ← freeFrom arrays count (i + 1)
      return slot ++ rest

/-- `nfs_free_handles`. -/
def nfsFreeHandles (arrays : Arrays) (size : Nat) : Except FreeFault (List Buffer) := do
  let slots ← freeFrom arrays size 0
  let fhandles ← kfree arrays.fhandles
  let fattrs ← kfree arrays.fattrs
  let labels ← kfree arrays.labels
  return slots ++ (fhandles ++ fattrs ++ labels)

/-- What `nfs_chain_lookup` does with the buffers: what it allocates, the labels the reply decoder gets,
    and what it frees. -/
structure HandlesRun where
  made : List Buffer
  decoded : List (Option Pointer)
  freed : Except FreeFault (List Buffer)

/-- `nfs_chain_lookup` of a chain of `size` names, as far as its buffers go: the reply is decoded if all
    could be allocated, and the buffers are freed in any case. -/
def chainLookupBuffers (a : Allocations) (size : Nat) : HandlesRun :=
  let (arrays, made, done) := nfsAllocateHandles a size
  { made := made
    decoded := if done then (List.range size).map arrays.labelAt else []
    freed := nfsFreeHandles arrays size }

/-! ### What is asked of it -/

/-- What was allocated is freed, each buffer once, and no error pointer gets to the decoder. -/
structure FreedSafely (run : HandlesRun) : Prop where
  freed : ∃ freed, run.freed = .ok freed ∧ freed.Perm run.made ∧ freed.Nodup
  decoded : some .error ∉ run.decoded

/-- All arrays are allocated, every handle and attribute block but possibly the last ones, and no label
    fails. -/
structure AllocatesThrough (a : Allocations) (size : Nat) : Prop where
  arrays : a.handleArray = true ∧ a.attrArray = true ∧ a.labelArray = true
  slots : ∀ i, i + 1 < size → a.handle i = true ∧ a.attr i = true
  labels : ∀ i, i < size → a.label i ≠ .failed

end Nfs4Compound.Rpc
