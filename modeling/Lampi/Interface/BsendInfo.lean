import Lampi.Lib.PackedBlocks

/-!
# Buffered sends: the attached buffer

`MPI_Buffer_attach` gives the library one buffer, from which buffered sends take the space they
pack their messages into.  `ulm_bsend_info.cc` keeps the list of blocks handed out of it; a block
is reference counted by the send descriptors that read from it.

The linked list of `ULMBufferRange_t` structures is a `List` here.  A structure keeps the address
it was allocated at, since callers hold on to it and write its bookkeeping fields.
-/

namespace Lampi

/-- `ULMBufferRange_t`.  The `next` link is the position in the list; `request` is `none` where
the source has `NULL`. -/
structure ULMBufferRange where
  addr : ℕ
  offset : ℤ
  len : ℤ
  request : Option ℕ
  refCount : ℤ
  freeAtZeroRefCount : ℤ
  deriving DecidableEq, Repr

/-- A structure that `ulm_bsend_clean_alloc` unlinks. -/
def ULMBufferRange.isFree (b : ULMBufferRange) : Bool := b.freeAtZeroRefCount ≠ 0 && b.refCount = 0

/-- `bsendData_t`, with the address the next `ulm_malloc` returns. -/
structure BsendData where
  bufferLength : ℤ
  bytesInUse : ℤ
  allocations : List ULMBufferRange
  nextAddr : ℕ
  deriving DecidableEq, Repr

namespace BsendData

/-- The state `PMPI_Buffer_attach` leaves behind. -/
def attach (bufferLength : ℤ) : BsendData :=
  { bufferLength, bytesInUse := 0, allocations := [], nextAddr := 0 }

/-! ### Allocation -/

/-- The scan of `ulm_bsend_alloc` with its end cases: the structure linked in and the new list, or
`none`.  `prev` is `none` in the first iteration, where the source has `next == prev`. -/
def ulmBsendAlloc.scan (bufferLength size : ℤ) (result : ULMBufferRange) :
    Option ULMBufferRange → List ULMBufferRange → Option (ULMBufferRange × List ULMBufferRange)
  | none, [] =>
    -- no allocations: the first one starts the buffer
    let result := { result with offset := 0 }
    some (result, [result])
  | some prev, [] =>
    if bufferLength - prev.offset - prev.len ≥ size then
      let result := { result with offset := prev.offset + prev.len }
      some (result, [result])
    else none
  | none, next :: rest =>
    if next.offset ≥ size then
      let result := { result with offset := 0 }
      some (result, result :: next :: rest)
    else (scan bufferLength size result (some next) rest).map fun r => (r.1, next :: r.2)
  | some prev, next :: rest =>
    if next.offset - (prev.offset + prev.len) ≥ size then
      let result := { result with offset := prev.offset + prev.len }
      some (result, result :: next :: rest)
    else (scan bufferLength size result (some next) rest).map fun r => (r.1, next :: r.2)

variable (d : BsendData)

/-- The structure `ulm_bsend_alloc` fills in before it looks for a place. -/
def ulmBsendAlloc.fresh (size freeAtZero : ℤ) : ULMBufferRange :=
  { addr := d.nextAddr, offset := 0, len := size, request := none, refCount := -1,
    freeAtZeroRefCount := freeAtZero }

/-- `ulm_bsend_alloc`, for a `ulm_malloc` that succeeds. -/
def ulmBsendAlloc (d : BsendData) (size freeAtZero : ℤ) : Option ULMBufferRange × BsendData :=
  -- is there at least a possibility of satisfying the request?
  if d.bufferLength - d.bytesInUse < size then (none, d)
  else
    match ulmBsendAlloc.scan d.bufferLength size (ulmBsendAlloc.fresh d size freeAtZero) none
      d.allocations with
    | none => (none, { d with nextAddr := d.nextAddr + 1 })
    | some (result, allocations) =>
      (some result, { d with
        bytesInUse := d.bytesInUse + size
        allocations := allocations
        nextAddr := d.nextAddr + 1 })

/-! ### Search -/

/-- The test of `ulm_bsend_find_alloc` on one structure.  A negative `offset` asks for the
structure a request owns, wherever it lies. -/
def ulmBsendFindAlloc.found (offset : ℤ) (request : Option ℕ) (b : ULMBufferRange) : Bool :=
  if offset ≥ 0 then
    b.offset = offset && (b.request = request || (b.request = none && b.refCount = -1))
  else b.request = request && b.freeAtZeroRefCount ≠ 1

/-- `ulm_bsend_find_alloc`. -/
def ulmBsendFindAlloc (d : BsendData) (offset : ℤ) (request : Option ℕ) : Option ULMBufferRange :=
  d.allocations.find? (ulmBsendFindAlloc.found offset request)

/-! ### Release -/

/-- What `ulm_bsend_clean_alloc` does to a structure before it looks at the reference count. -/
def ulmBsendCleanAlloc.mark (wantToDetach : Bool) (b : ULMBufferRange) : ULMBufferRange :=
  if wantToDetach then
    { b with
      refCount := if b.refCount = -1 then 0 else b.refCount
      freeAtZeroRefCount := 1 }
  else b

/-- The loop of `ulm_bsend_clean_alloc`: the bytes still in use and the structures kept. -/
def ulmBsendCleanAlloc.go (wantToDetach : Bool) : ℤ → List ULMBufferRange → ℤ × List ULMBufferRange
  | bytesInUse, [] => (bytesInUse, [])
  | bytesInUse, next :: rest =>
    let next := mark wantToDetach next
    if next.isFree then go wantToDetach (bytesInUse - next.len) rest
    else
      let r := go wantToDetach bytesInUse rest
      (r.1, next :: r.2)

/-- `ulm_bsend_clean_alloc`. -/
def ulmBsendCleanAlloc (d : BsendData) (wantToDetach : Bool) : BsendData :=
  let r := ulmBsendCleanAlloc.go wantToDetach d.bytesInUse d.allocations
  { d with bytesInUse := r.1, allocations := r.2 }

/-- A write through a pointer to the structure at `addr`. -/
def modify (addr : ℕ) (f : ULMBufferRange → ULMBufferRange) : BsendData :=
  { d with allocations := d.allocations.map fun b => if b.addr = addr then f b else b }

/-- `ulm_bsend_increment_refcount`; the result is 0 when no structure is found. -/
def ulmBsendIncrementRefcount (request : Option ℕ) (offset : ℤ) : ℤ × BsendData :=
  match d.ulmBsendFindAlloc offset request with
  | none => (0, d)
  | some allocation =>
    (1, d.modify allocation.addr fun b =>
      { b with request, refCount := b.refCount + if b.refCount = -1 then 2 else 1 })

/-- `ulm_bsend_decrement_refcount`; the result is 0 when no structure is found. -/
def ulmBsendDecrementRefcount (request : Option ℕ) (offset : ℤ) : ℤ × BsendData :=
  match d.ulmBsendFindAlloc offset request with
  | none => (0, d)
  | some allocation =>
    let d := d.modify allocation.addr fun b => { b with refCount := b.refCount - 1 }
    if allocation.refCount - 1 = 0 && allocation.freeAtZeroRefCount ≠ 0 then
      (1, d.ulmBsendCleanAlloc false)
    else (1, d)

/-! ### Runs -/

/-- What a run does to the buffer.  `assign` is a caller that writes the bookkeeping fields of a
structure through the pointer `ulm_bsend_alloc` or `ulm_bsend_find_alloc` returned, as `ulm_start`,
`ulm_request_free` and the `MPI_Bsend` family do. -/
inductive Call
  | alloc (size freeAtZero : ℤ)
  | find (offset : ℤ) (request : Option ℕ)
  | clean (wantToDetach : Bool)
  | increment (request : Option ℕ) (offset : ℤ)
  | decrement (request : Option ℕ) (offset : ℤ)
  | assign (addr : ℕ) (request : Option ℕ) (refCount freeAtZeroRefCount : ℤ)
  deriving DecidableEq, Repr

/-- The size asked for is a number of bytes. -/
def Call.HasByteCount : Call → Prop
  | .alloc size _ => 0 ≤ size
  | _ => True

instance : DecidablePred Call.HasByteCount := fun c =>
  match c with
  | .alloc size _ => inferInstanceAs (Decidable (0 ≤ size))
  | .find _ _ | .clean _ | .increment _ _ | .decrement _ _ | .assign _ _ _ _ =>
    inferInstanceAs (Decidable True)

def step : Call → BsendData
  | .alloc size freeAtZero => (d.ulmBsendAlloc size freeAtZero).2
  | .find _ _ => d
  | .clean wantToDetach => d.ulmBsendCleanAlloc wantToDetach
  | .increment request offset => (d.ulmBsendIncrementRefcount request offset).2
  | .decrement request offset => (d.ulmBsendDecrementRefcount request offset).2
  | .assign addr request refCount freeAtZeroRefCount =>
    d.modify addr fun b => { b with request, refCount, freeAtZeroRefCount }

def run (calls : List Call) : BsendData := calls.foldl step d

end BsendData

end Lampi
