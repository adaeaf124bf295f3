import Otrix.Common.Word
import Mathlib.Logic.Function.Basic

/-!
# Socket buffers

The part of `net/sockbuf.hpp` that received packets go through: the zero-copy
constructor, `add_parsed_header`, `set_payload_size` and the move constructor. Sent
packets start from the constructor that allocates, and `add_header` puts the headers in
front of the payload. Pointers are addresses, and `0` is a null pointer. `payloadEnd` is
the address behind the payload as a mathematical sum; a payload that ends behind its
buffer is one that a reader of the payload runs out of.
-/

namespace Otrix.Net

/-- `sockbuf_header_t`. -/
inductive SockbufHeader where
  | virtio
  | ethernet
  | ip
  | icmp
  | udp
  | tcp
  deriving DecidableEq

/-- `sockbuf`, without the list node and the function that frees the buffer. -/
structure Sockbuf where
  start : Nat
  bufferSize : Nat
  headers : SockbufHeader → Nat
  payload : Nat
  head : Nat
  payloadSize : Nat

namespace Sockbuf

/-- The zero-copy constructor. -/
def zeroCopy (data dataSize : Nat) : Sockbuf where
  start := data
  bufferSize := dataSize
  headers := fun _ => 0
  payload := data
  head := data
  payloadSize := dataSize

/-- The constructor that allocates, when `alloc` returns `start`. -/
def allocated (start headersSize payloadSize : Nat) : Sockbuf where
  start := start
  bufferSize := headersSize + payloadSize
  headers := fun _ => 0
  payload := start + headersSize
  head := start + headersSize
  payloadSize := payloadSize

/-- `data`. -/
def data (skb : Sockbuf) : Nat :=
  if skb.start = 0 then skb.start else skb.head

/-- `size`. -/
def size (skb : Sockbuf) : Nat :=
  skb.payload - skb.head + skb.payloadSize

/-- `add_header`, with the pointer that it returns. -/
def addHeader (skb : Sockbuf) (headerSize : Nat) (type : SockbufHeader) : Nat × Sockbuf :=
  if skb.head - skb.start < headerSize then (0, skb)
  else if skb.headers type ≠ 0 then (skb.headers type, skb)
  else
    (skb.head - headerSize,
      { skb with
        head := skb.head - headerSize
        headers := Function.update skb.headers type (skb.head - headerSize) })

/-- `add_parsed_header`. -/
def addParsedHeader (skb : Sockbuf) (headerSize : Nat) (type : SockbufHeader) : Sockbuf :=
  if skb.headers type ≠ 0 then skb
  else if headerSize > skb.payloadSize then skb
  else
    { skb with
      headers := Function.update skb.headers type skb.head
      head := skb.head + headerSize
      payloadSize := skb.payloadSize - headerSize
      payload := skb.payload + headerSize }

/-- `set_payload_size`. -/
def setPayloadSize (skb : Sockbuf) (newSize : Nat) : Sockbuf :=
  { skb with payloadSize := newSize }

/-- What the move constructor leaves of its argument. -/
def movedFrom : Sockbuf where
  start := 0
  bufferSize := 0
  headers := fun _ => 0
  payload := 0
  head := 0
  payloadSize := 0

/-- The address behind the payload. -/
def payloadEnd (skb : Sockbuf) : Nat :=
  skb.payload + skb.payloadSize

variable (skb : Sockbuf) (headerSize : Nat) (type : SockbufHeader)

@[simp] theorem add_parsed_header_payload_end :
    (skb.addParsedHeader headerSize type).payloadEnd = skb.payloadEnd := by
  unfold addParsedHeader
  split
  · rfl
  · split
    · rfl
    · show skb.payload + headerSize + (skb.payloadSize - headerSize) = skb.payload + skb.payloadSize
      omega

theorem le_add_parsed_header_payload :
    skb.payload ≤ (skb.addParsedHeader headerSize type).payload := by
  unfold addParsedHeader
  split
  · exact Nat.le_refl _
  · split
    · exact Nat.le_refl _
    · exact Nat.le_add_right _ _

/-- What parsing a header of a new type does when the payload is long enough. -/
theorem add_parsed_header_of_le (hnew : skb.headers type = 0)
    (hle : headerSize ≤ skb.payloadSize) :
    skb.addParsedHeader headerSize type =
      { skb with
        headers := Function.update skb.headers type skb.head
        head := skb.head + headerSize
        payloadSize := skb.payloadSize - headerSize
        payload := skb.payload + headerSize } := by
  rw [addParsedHeader, if_neg (not_not.mpr hnew), if_neg (by omega)]

theorem add_header_of_le (hnew : skb.headers type = 0) (hroom : headerSize ≤ skb.head - skb.start) :
    skb.addHeader headerSize type =
      (skb.head - headerSize,
        { skb with
          head := skb.head - headerSize
          headers := Function.update skb.headers type (skb.head - headerSize) }) := by
  rw [addHeader, if_neg (Nat.not_lt.mpr hroom), if_neg (not_not.mpr hnew)]

end Sockbuf

end Otrix.Net
