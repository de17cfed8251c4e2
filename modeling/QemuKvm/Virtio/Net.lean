import QemuKvm.Lib.LeMem
import QemuKvm.Util.Iov
import QemuKvm.Virtio.Load

/-!
# The receive filter of virtio-net (hw/virtio-net.c)

The guest programs the filter through the control queue: receive modes
(`virtio_net_handle_rx_mode`), a table of up to `MAC_TABLE_ENTRIES`
addresses (`virtio_net_handle_mac`) and a bitmap of 802.1Q ids
(`virtio_net_handle_vlan_table`). `receive_filter` decides from them which
frames reach the guest, and migration carries them over
(`virtio_net_save`, `virtio_net_load`).

The MAC table holds two lists, unicast entries below `first_multi` and
multicast ones from `first_multi` to `in_use`, which `receive_filter`
searches for unicast and for multicast frames. The loader does not read
`first_multi` from the stream: it takes the first entry with the multicast
bit.

Memory is `ℕ → UInt8` throughout: the guest's buffers are read through
`Iovec`s into guest memory, and the MAC and VLAN tables are their bytes and
what follows them, so a copy past a table is visible in the model. `int`
fields are `ℤ`; an `int` set from an unsigned value goes through `toInt32`,
and an unsigned value taken from an `int` through `toUint32`. The product
`in_use * ETH_ALEN` of two `int`s is undefined in C when it overflows; the
model takes the 32-bit product the compiled code computes.
-/

namespace QemuKvm.Virtio.Net

open QemuKvm.Migration
open QemuKvm.Iov (Iovec)

def VIRTIO_NET_VM_VERSION : ℕ := 11
def MAC_TABLE_ENTRIES : ℕ := 64
def MAX_VLAN : ℕ := 1 <<< 12
def ETH_ALEN : ℕ := 6

def VIRTIO_NET_OK : UInt8 := 0
def VIRTIO_NET_ERR : UInt8 := 1

def VIRTIO_NET_CTRL_RX_MODE : UInt8 := 0
def VIRTIO_NET_CTRL_RX_MODE_PROMISC : UInt8 := 0
def VIRTIO_NET_CTRL_RX_MODE_ALLMULTI : UInt8 := 1
def VIRTIO_NET_CTRL_RX_MODE_ALLUNI : UInt8 := 2
def VIRTIO_NET_CTRL_RX_MODE_NOMULTI : UInt8 := 3
def VIRTIO_NET_CTRL_RX_MODE_NOUNI : UInt8 := 4
def VIRTIO_NET_CTRL_RX_MODE_NOBCAST : UInt8 := 5
def VIRTIO_NET_CTRL_MAC : UInt8 := 1
def VIRTIO_NET_CTRL_MAC_TABLE_SET : UInt8 := 0
def VIRTIO_NET_CTRL_VLAN : UInt8 := 2
def VIRTIO_NET_CTRL_VLAN_ADD : UInt8 := 0
def VIRTIO_NET_CTRL_VLAN_DEL : UInt8 := 1

/-- `VIRTIO_NET_S_LINK_UP`. -/
def VIRTIO_NET_S_LINK_UP : UInt16 := 1

/-- `sizeof(struct virtio_net_hdr)`. -/
def sizeofVirtioNetHdr : ℕ := 10

/-- `sizeof(struct virtio_net_ctrl_hdr)`: the class and the command. -/
def sizeofCtrlHdr : ℕ := 2

/-- `sizeof(struct virtio_net_ctrl_mac)`, the size of its `entries` count. -/
def sizeofCtrlMac : ℕ := 4

def EINVAL : ℤ := 22

/-- `(unsigned int)x` for an `int` `x`. -/
def toUint32 (x : ℤ) : ℕ := (x % 2 ^ 32).toNat

/-! ## The device -/

/-- `n->mac_table`. `macs` is the table of `MAC_TABLE_ENTRIES * ETH_ALEN`
bytes and the memory after it. Every value `first_multi` is given is
non-negative: 0, `in_use` right after the first list, or a loop index. -/
structure MacTable where
  inUse : ℤ
  firstMulti : ℕ
  multiOverflow : UInt8
  uniOverflow : UInt8
  macs : ℕ → UInt8

/-- The fields of `VirtIONet` that the control queue, the receive filter and
migration read or write. `mac` is the bytes of the device's address and
`vlans` the bytes of the `MAX_VLAN >> 5` words of the VLAN bitmap, in the
host's (little-endian) order. -/
structure VirtIONet where
  vdev : VirtIODevice
  mac : ℕ → UInt8
  status : UInt16
  txWaiting : ℤ
  hasVnetHdr : UInt32
  hasUfo : UInt8
  mergeableRxBufs : ℤ
  promisc : UInt8
  allmulti : UInt8
  alluni : UInt8
  nomulti : UInt8
  nouni : UInt8
  nobcast : UInt8
  macTable : MacTable
  vlans : ℕ → UInt8

/-- `VirtQueueElement`: the buffers the guest gave, in guest memory. -/
structure VirtQueueElement where
  inSg : List Iovec
  outSg : List Iovec

/-- The fields `virtio_net_init` sets on the zeroed device: the address from
the configuration, the link up and promiscuous mode on. -/
def virtioNetInit (vdev : VirtIODevice) (mac : ℕ → UInt8) : VirtIONet :=
  { vdev := vdev
    mac := mac
    status := VIRTIO_NET_S_LINK_UP
    txWaiting := 0
    hasVnetHdr := 0
    hasUfo := 0
    mergeableRxBufs := 0
    promisc := 1
    allmulti := 0
    alluni := 0
    nomulti := 0
    nouni := 0
    nobcast := 0
    macTable := ⟨0, 0, 0, 0, fun _ => 0⟩
    vlans := fun _ => 0 }

/-- `virtio_net_reset`: back to promiscuous mode, with both tables
cleared. -/
def virtioNetReset (n : VirtIONet) : VirtIONet :=
  { n with
    promisc := 1
    allmulti := 0
    alluni := 0
    nomulti := 0
    nouni := 0
    nobcast := 0
    macTable :=
      { inUse := 0
        firstMulti := 0
        multiOverflow := 0
        uniOverflow := 0
        macs := memset n.macTable.macs 0 0 (MAC_TABLE_ENTRIES * ETH_ALEN) }
    vlans := memset n.vlans 0 0 (MAX_VLAN >>> 3) }

/-! ## The control queue -/

/-- The flag of `virtio_net_handle_rx_mode`'s `cmd`, set to `on`; `none` for
an unknown command. -/
def setRxMode (n : VirtIONet) (cmd on : UInt8) : Option VirtIONet :=
  if cmd = VIRTIO_NET_CTRL_RX_MODE_PROMISC then some { n with promisc := on }
  else if cmd = VIRTIO_NET_CTRL_RX_MODE_ALLMULTI then some { n with allmulti := on }
  else if cmd = VIRTIO_NET_CTRL_RX_MODE_ALLUNI then some { n with alluni := on }
  else if cmd = VIRTIO_NET_CTRL_RX_MODE_NOMULTI then some { n with nomulti := on }
  else if cmd = VIRTIO_NET_CTRL_RX_MODE_NOUNI then some { n with nouni := on }
  else if cmd = VIRTIO_NET_CTRL_RX_MODE_NOBCAST then some { n with nobcast := on }
  else none

/-- `virtio_net_handle_rx_mode`: the ack and the device; `none` is the
`exit(1)` on a command without exactly one byte of argument. -/
def virtioNetHandleRxMode (n : VirtIONet) (cmd : UInt8) (mem : ℕ → UInt8)
    (elem : VirtQueueElement) : Option (UInt8 × VirtIONet) :=
  match elem.outSg with
  | [_, sg] =>
    if sg.iovLen ≠ 1 then none
    else
      match setRxMode n cmd (mem sg.iovBase) with
      | some n => some (VIRTIO_NET_OK, n)
      | none => some (VIRTIO_NET_ERR, n)
  | _ => none

/-- The check of each list of a MAC_TABLE_SET:
`sizeof(mac_data.entries) + (mac_data.entries * ETH_ALEN)` is at most the
buffer's length, the product in 32 bits. -/
def macListFits (sg : Iovec) (entries : ℕ) : Prop :=
  sizeofCtrlMac + entries * ETH_ALEN % 2 ^ 32 ≤ sg.iovLen

instance (sg : Iovec) (entries : ℕ) : Decidable (macListFits sg entries) :=
  inferInstanceAs (Decidable (_ ≤ _))

/-- The table cleared, as `virtio_net_handle_mac` starts every MAC_TABLE_SET. -/
def MacTable.cleared (t : MacTable) : MacTable :=
  { inUse := 0
    firstMulti := 0
    uniOverflow := 0
    multiOverflow := 0
    macs := memset t.macs 0 0 (MAC_TABLE_ENTRIES * ETH_ALEN) }

/-- The first list of a MAC_TABLE_SET, `entries` long at `sg.iovBase + 4`:
copied if it fits the table, and `first_multi` set to the count. -/
def macTableSetFirst (mem : ℕ → UInt8) (sg : Iovec) (entries : ℕ) (t : MacTable) : MacTable :=
  let t :=
    if entries ≤ MAC_TABLE_ENTRIES then
      { t with
        macs := memcpy t.macs 0 mem (sg.iovBase + sizeofCtrlMac) (entries * ETH_ALEN % 2 ^ 32)
        inUse := toInt32 ((toUint32 t.inUse + entries) % 2 ^ 32) }
    else { t with uniOverflow := 1 }
  -- `in_use` is 0 or the count here
  { t with firstMulti := t.inUse.toNat }

/-- The second list of a MAC_TABLE_SET: appended if the 32-bit sum
`in_use + entries` is at most `MAC_TABLE_ENTRIES`. -/
def macTableSetSecond (mem : ℕ → UInt8) (sg : Iovec) (entries : ℕ) (t : MacTable) : MacTable :=
  if entries ≠ 0 then
    if (toUint32 t.inUse + entries) % 2 ^ 32 ≤ MAC_TABLE_ENTRIES then
      { t with
        macs := memcpy t.macs (t.inUse * ETH_ALEN).toNat mem (sg.iovBase + sizeofCtrlMac)
          (entries * ETH_ALEN % 2 ^ 32)
        inUse := toInt32 ((toUint32 t.inUse + entries) % 2 ^ 32) }
    else { t with multiOverflow := 1 }
  else t

/-- `virtio_net_handle_mac`: the ack and the device. The table is cleared
before the lists are checked, so a rejected list leaves it cleared or with
the first list only. -/
def virtioNetHandleMac (n : VirtIONet) (cmd : UInt8) (mem : ℕ → UInt8)
    (elem : VirtQueueElement) : UInt8 × VirtIONet :=
  match elem.outSg with
  | [_, sg1, sg2] =>
    if cmd ≠ VIRTIO_NET_CTRL_MAC_TABLE_SET ∨ sg1.iovLen < sizeofCtrlMac ∨
        sg2.iovLen < sizeofCtrlMac then (VIRTIO_NET_ERR, n)
    else
      let t := n.macTable.cleared
      let entries := ldLe mem sg1.iovBase 4
      if ¬ macListFits sg1 entries then (VIRTIO_NET_ERR, { n with macTable := t })
      else
        let t := macTableSetFirst mem sg1 entries t
        let entries := ldLe mem sg2.iovBase 4
        if ¬ macListFits sg2 entries then (VIRTIO_NET_ERR, { n with macTable := t })
        else (VIRTIO_NET_OK, { n with macTable := macTableSetSecond mem sg2 entries t })
  | _ => (VIRTIO_NET_ERR, n)

/-- The word of the VLAN bitmap that holds id `vid`: `n->vlans[vid >> 5]`. -/
def vlanWord (vlans : ℕ → UInt8) (vid : ℕ) : UInt32 :=
  (ldLe vlans (4 * (vid >>> 5)) 4).toUInt32

/-- The bit of id `vid` in its word: `1U << (vid & 0x1f)`. -/
def vlanBit (vid : ℕ) : UInt32 :=
  1 <<< (vid &&& 0x1f).toUInt32

/-- `virtio_net_handle_vlan_table`. -/
def virtioNetHandleVlanTable (n : VirtIONet) (cmd : UInt8) (mem : ℕ → UInt8)
    (elem : VirtQueueElement) : UInt8 × VirtIONet :=
  match elem.outSg with
  | [_, sg] =>
    if sg.iovLen ≠ 2 then (VIRTIO_NET_ERR, n)
    else
      let vid := ldLe mem sg.iovBase 2
      if MAX_VLAN ≤ vid then (VIRTIO_NET_ERR, n)
      else if cmd = VIRTIO_NET_CTRL_VLAN_ADD then
        (VIRTIO_NET_OK,
          { n with vlans := stLe n.vlans (4 * (vid >>> 5)) 4 (vlanWord n.vlans vid ||| vlanBit vid).toNat })
      else if cmd = VIRTIO_NET_CTRL_VLAN_DEL then
        (VIRTIO_NET_OK,
          { n with
            vlans := stLe n.vlans (4 * (vid >>> 5)) 4 (vlanWord n.vlans vid &&& ~~~vlanBit vid).toNat })
      else (VIRTIO_NET_ERR, n)
  | _ => (VIRTIO_NET_ERR, n)

/-- One element of `virtio_net_handle_ctrl`'s loop: the device, guest memory
with the ack stored in the last in-buffer, and the ack. `status` is the
loop's variable, set only for the three known classes, so an element of
another class is acked with the status of the element before it. `none` is
the `exit(1)` on an element without its headers. -/
def ctrlElem (n : VirtIONet) (mem : ℕ → UInt8) (status : UInt8) (elem : VirtQueueElement) :
    Option (VirtIONet × (ℕ → UInt8) × UInt8) :=
  match elem.outSg.head?, elem.inSg.getLast? with
  | some hdr, some ack =>
    if hdr.iovLen < sizeofCtrlHdr ∨ ack.iovLen < 1 then none
    else
      let cls := mem hdr.iovBase
      let cmd := mem (hdr.iovBase + 1)
      let r : Option (UInt8 × VirtIONet) :=
        if cls = VIRTIO_NET_CTRL_RX_MODE then virtioNetHandleRxMode n cmd mem elem
        else if cls = VIRTIO_NET_CTRL_MAC then some (virtioNetHandleMac n cmd mem elem)
        else if cls = VIRTIO_NET_CTRL_VLAN then some (virtioNetHandleVlanTable n cmd mem elem)
        else some (status, n)
      r.map fun (status, n) => (n, Function.update mem ack.iovBase status, status)
  | _, _ => none

/-- The loop of `virtio_net_handle_ctrl` over the elements it pops. -/
def ctrlLoop (n : VirtIONet) (mem : ℕ → UInt8) (status : UInt8) :
    List VirtQueueElement → Option (VirtIONet × (ℕ → UInt8))
  | [] => some (n, mem)
  | elem :: elems =>
    match ctrlElem n mem status elem with
    | some (n, mem, status) => ctrlLoop n mem status elems
    | none => none

/-- `virtio_net_handle_ctrl`, with `status` starting as `VIRTIO_NET_ERR`. -/
def virtioNetHandleCtrl (n : VirtIONet) (mem : ℕ → UInt8) (elems : List VirtQueueElement) :
    Option (VirtIONet × (ℕ → UInt8)) :=
  ctrlLoop n mem VIRTIO_NET_ERR elems

/-! ## The receive filter -/

/-- `memcmp(p, q + j, len) == 0`. -/
def bytesEq (p q : ℕ → UInt8) (j len : ℕ) : Bool :=
  (List.range len).all fun k => p k == q (j + k)

/-- Whether `vid` is set in the VLAN bitmap:
`n->vlans[vid >> 5] & (1U << (vid & 0x1f))`. -/
def vlanSet (vlans : ℕ → UInt8) (vid : ℕ) : Bool :=
  vlanWord vlans vid &&& vlanBit vid != 0

/-- The entries `lo, …, hi - 1` of the table: whether one of them is the
frame's destination. -/
def macTableHas (ptr : ℕ → UInt8) (macs : ℕ → UInt8) (lo : ℕ) (hi : ℤ) : Bool :=
  (List.range' lo (hi - lo).toNat).any fun i => bytesEq ptr macs (i * ETH_ALEN) ETH_ALEN

/-- `receive_filter(n, buf, size)`: whether the frame at `buf` is for the
guest. `size` is not read. -/
def receiveFilter (n : VirtIONet) (buf : ℕ → UInt8) : Bool :=
  if n.promisc ≠ 0 then true
  else
    let ptr : ℕ → UInt8 :=
      if n.hasVnetHdr ≠ 0 then fun i => buf (sizeofVirtioNetHdr + i) else buf
    -- an 802.1Q tag whose id is not in the bitmap drops the frame
    if ptr 12 = 0x81 ∧ ptr 13 = 0x00 ∧
        vlanSet n.vlans (((ptr 14).toNat <<< 8 ||| (ptr 15).toNat) &&& 0xfff) = false then false
    else if ptr 0 &&& 1 ≠ 0 then
      if bytesEq ptr (fun _ => 0xff) 0 ETH_ALEN then n.nobcast = 0
      else if n.nomulti ≠ 0 then false
      else if n.allmulti ≠ 0 ∨ n.macTable.multiOverflow ≠ 0 then true
      else macTableHas ptr n.macTable.macs n.macTable.firstMulti n.macTable.inUse
    else
      if n.nouni ≠ 0 then false
      else if n.alluni ≠ 0 ∨ n.macTable.uniOverflow ≠ 0 then true
      else if bytesEq ptr n.mac 0 ETH_ALEN then true
      else macTableHas ptr n.macTable.macs 0 n.macTable.firstMulti

/-! ## Migration -/

/-- `virtio_net_save`, after `virtio_save`. -/
def virtioNetSave (n : VirtIONet) : List UInt8 :=
  virtioSave n.vdev ++ qemuPutBuffer n.mac ETH_ALEN ++ qemuPutBe32 (toUint32 n.txWaiting) ++
    qemuPutBe32 (toUint32 n.mergeableRxBufs) ++ qemuPutBe16 n.status.toNat ++
    qemuPutByte n.promisc.toNat ++ qemuPutByte n.allmulti.toNat ++
    qemuPutBe32 (toUint32 n.macTable.inUse) ++
    qemuPutBuffer n.macTable.macs (toUint32 (n.macTable.inUse * ETH_ALEN)) ++
    qemuPutBuffer n.vlans (MAX_VLAN >>> 3) ++ qemuPutBe32 n.hasVnetHdr.toNat ++
    qemuPutByte n.macTable.multiOverflow.toNat ++ qemuPutByte n.macTable.uniOverflow.toNat ++
    qemuPutByte n.alluni.toNat ++ qemuPutByte n.nomulti.toNat ++ qemuPutByte n.nouni.toNat ++
    qemuPutByte n.nobcast.toNat ++ qemuPutByte n.hasUfo.toNat

/-- What `virtio_net_load` depends on besides the device and the stream: the
features and guest memory `virtio_load` checks against, whether the peer
takes a vnet header and UFO, and what `qemu_fseek(f, pos, SEEK_CUR)` leaves
of the stream. No transport's `get_buffer` reads its position, so that seek
drops what the file has buffered (`Migration/FileRead`) rather than
skipping `pos` bytes; the model leaves it open. -/
structure NetPeer where
  supported : UInt32
  lduw : ℕ → ℕ
  peerHasVnetHdr : Bool
  peerHasUfo : Bool
  fseek : ℤ → List UInt8 → List UInt8

/-- `qemu_get_buffer(f, buf, size)` into the memory at `buf`. -/
def qemuGetBufferInto (buf : ℕ → UInt8) (f : List UInt8) (size : ℕ) :
    (ℕ → UInt8) × List UInt8 :=
  let (bytes, f) := qemuGetBuffer f size
  (storeList buf (List.range' 0 bytes.length) bytes, f)

/-- `n->promisc` or `n->allmulti` as version `versionId` saved it: 32 bits
before version 8, a byte from then on. -/
def getRxFlag (f : List UInt8) (versionId : ℕ) : UInt8 × List UInt8 :=
  if versionId < 8 then
    let (v, f) := qemuGetBe32 f
    (v.toUInt8, f)
  else
    let (v, f) := qemuGetByte f
    (v.toUInt8, f)

/-- The MAC table's count and entries, from version 5 on. A count of at most
`MAC_TABLE_ENTRIES`, negative ones included, is followed by
`in_use * ETH_ALEN` bytes; a larger one is skipped with `qemu_fseek` and
both overflow flags set. -/
def loadMacTable (p : NetPeer) (t : MacTable) (f : List UInt8) : MacTable × List UInt8 :=
  let (v, f) := qemuGetBe32 f
  let t := { t with inUse := toInt32 v }
  if t.inUse ≤ (MAC_TABLE_ENTRIES : ℤ) then
    let (macs, f) := qemuGetBufferInto t.macs f (toUint32 (t.inUse * ETH_ALEN))
    ({ t with macs := macs }, f)
  else if t.inUse ≠ 0 then
    let f := p.fseek (toInt32 (toUint32 (t.inUse * ETH_ALEN))) f
    ({ t with multiOverflow := 1, uniOverflow := 1, inUse := 0 }, f)
  else (t, f)

/-- The fields up to the VLAN bitmap, each from the version that added it. -/
def loadRxState (p : NetPeer) (n : VirtIONet) (f : List UInt8) (versionId : ℕ) :
    VirtIONet × List UInt8 :=
  let (mac, f) := qemuGetBufferInto n.mac f ETH_ALEN
  let (txWaiting, f) := qemuGetBe32 f
  let (mergeable, f) := qemuGetBe32 f
  let n := { n with mac := mac, txWaiting := toInt32 txWaiting, mergeableRxBufs := toInt32 mergeable }
  let (n, f) :=
    if 3 ≤ versionId then
      let (status, f) := qemuGetBe16 f
      ({ n with status := status.toUInt16 }, f)
    else (n, f)
  let (n, f) :=
    if 4 ≤ versionId then
      let (promisc, f) := getRxFlag f versionId
      let (allmulti, f) := getRxFlag f versionId
      ({ n with promisc := promisc, allmulti := allmulti }, f)
    else (n, f)
  let (n, f) :=
    if 5 ≤ versionId then
      let (t, f) := loadMacTable p n.macTable f
      ({ n with macTable := t }, f)
    else (n, f)
  if 6 ≤ versionId then
    let (vlans, f) := qemuGetBufferInto n.vlans f (MAX_VLAN >>> 3)
    ({ n with vlans := vlans }, f)
  else (n, f)

/-- The overflow flags from version 9 on, the other receive modes from
version 10 on. -/
def loadRxFlags (n : VirtIONet) (f : List UInt8) (versionId : ℕ) : VirtIONet × List UInt8 :=
  let (n, f) :=
    if 9 ≤ versionId then
      let (multi, f) := qemuGetByte f
      let (uni, f) := qemuGetByte f
      ({ n with macTable := { n.macTable with multiOverflow := multi.toUInt8, uniOverflow := uni.toUInt8 } }, f)
    else (n, f)
  if 10 ≤ versionId then
    let (alluni, f) := qemuGetByte f
    let (nomulti, f) := qemuGetByte f
    let (nouni, f) := qemuGetByte f
    let (nobcast, f) := qemuGetByte f
    ({ n with
      alluni := alluni.toUInt8
      nomulti := nomulti.toUInt8
      nouni := nouni.toUInt8
      nobcast := nobcast.toUInt8 }, f)
  else (n, f)

/-- The loop at the end of `virtio_net_load`: the first entry below `in_use`
whose first byte has the multicast bit, or `in_use` (0 for a negative
count). -/
def firstMultiOf (t : MacTable) : ℕ :=
  ((List.range t.inUse.toNat).find? fun i => t.macs (i * ETH_ALEN) &&& 1 != 0).getD t.inUse.toNat

/-- `virtio_net_load`: the return value, the device and the stream left. The
saved `has_vnet_hdr` and `has_ufo` are only checked against the peer, and
`first_multi` is recomputed by `firstMultiOf`. -/
def virtioNetLoad (p : NetPeer) (n : VirtIONet) (f : List UInt8) (versionId : ℕ) :
    ℤ × VirtIONet × List UInt8 :=
  if versionId < 2 ∨ VIRTIO_NET_VM_VERSION < versionId then (-EINVAL, n, f)
  else
    let (ret, vdev, f) := virtioLoad p.supported p.lduw n.vdev f
    let n := { n with vdev := vdev }
    if ret ≠ 0 then (ret, n, f)
    else
      let (n, f) := loadRxState p n f versionId
      let (vnetHdr, f) := if 7 ≤ versionId then qemuGetBe32 f else (0, f)
      if vnetHdr ≠ 0 ∧ p.peerHasVnetHdr = false then (-1, n, f)
      else
        let (n, f) := loadRxFlags n f versionId
        let (ufo, f) := if 11 ≤ versionId then qemuGetByte f else (0, f)
        if ufo ≠ 0 ∧ p.peerHasUfo = false then (-1, n, f)
        else (0, { n with macTable := { n.macTable with firstMulti := firstMultiOf n.macTable } }, f)

/-! ## Runs of the device -/

/-- What happens to the device's filter state: a reset, one call of the
control queue's handler on the elements it pops, or an incoming migration
of version `versionId`. -/
inductive NetEvent where
  | reset
  | ctrl (mem : ℕ → UInt8) (elems : List VirtQueueElement)
  | load (f : List UInt8) (versionId : ℕ)

/-- The device after an event; `none` when QEMU exits, which it does on a
malformed control element and when an incoming migration fails. -/
def netStep (p : NetPeer) (n : VirtIONet) : NetEvent → Option VirtIONet
  | .reset => some (virtioNetReset n)
  | .ctrl mem elems => (virtioNetHandleCtrl n mem elems).map Prod.fst
  | .load f versionId =>
    match virtioNetLoad p n f versionId with
    | (0, n, _) => some n
    | _ => none

def netRun (p : NetPeer) (n : VirtIONet) : List NetEvent → Option VirtIONet
  | [] => some n
  | ev :: evs =>
    match netStep p n ev with
    | some n => netRun p n evs
    | none => none

/-! ## The MAC table stays within its entries

`receive_filter` searches the entries below `first_multi` and from
`first_multi` to `in_use`. Both stay at most `MAC_TABLE_ENTRIES` in every
state a run reaches: the first list is copied only when it fits, the second
only when the 32-bit sum `in_use + entries` does (wrapped or not), and the
loader keeps a count only when it is at most `MAC_TABLE_ENTRIES`. -/

/-- The bounds of the two searches of `receive_filter`. -/
structure MacTable.Bounded (t : MacTable) : Prop where
  inUse_le : t.inUse ≤ MAC_TABLE_ENTRIES
  firstMulti_le : t.firstMulti ≤ MAC_TABLE_ENTRIES

theorem toInt32_of_lt {x : ℕ} (h : x < 2 ^ 31) : toInt32 x = x := by
  unfold toInt32
  rw [if_pos h]

@[simp] theorem toUint32_zero : toUint32 0 = 0 := rfl

theorem MacTable.cleared_bounded (t : MacTable) : t.cleared.Bounded :=
  ⟨by simp [MacTable.cleared, MAC_TABLE_ENTRIES], by simp [MacTable.cleared]⟩

/-- The count the first list leaves in a cleared table: the list's own
count if it fits, else none. -/
def firstCount (entries : ℕ) : ℕ := if entries ≤ MAC_TABLE_ENTRIES then entries else 0

theorem firstCount_le (entries : ℕ) : firstCount entries ≤ MAC_TABLE_ENTRIES := by
  unfold firstCount
  split <;> omega

theorem macTableSetFirst_inUse (mem : ℕ → UInt8) (sg : Iovec) (entries : ℕ) {t : MacTable}
    (ht : t.inUse = 0) : (macTableSetFirst mem sg entries t).inUse = firstCount entries := by
  unfold macTableSetFirst firstCount MAC_TABLE_ENTRIES
  split
  · simp only [ht, toUint32_zero, Nat.zero_add]
    rw [Nat.mod_eq_of_lt (by omega), toInt32_of_lt (by omega)]
  · simp [ht]

theorem macTableSetFirst_firstMulti (mem : ℕ → UInt8) (sg : Iovec) (entries : ℕ) {t : MacTable}
    (ht : t.inUse = 0) : (macTableSetFirst mem sg entries t).firstMulti = firstCount entries := by
  have h := macTableSetFirst_inUse mem sg entries ht
  unfold macTableSetFirst at h ⊢
  simp only at h ⊢
  rw [h]
  rfl

theorem macTableSetSecond_firstMulti (mem : ℕ → UInt8) (sg : Iovec) (entries : ℕ) (t : MacTable) :
    (macTableSetSecond mem sg entries t).firstMulti = t.firstMulti := by
  unfold macTableSetSecond
  split_ifs <;> rfl

/-- The second list leaves `in_use` at the 32-bit sum when that is at most
`MAC_TABLE_ENTRIES`, and where it was otherwise. -/
theorem macTableSetSecond_inUse_le (mem : ℕ → UInt8) (sg : Iovec) (entries : ℕ) {t : MacTable}
    (ht : t.inUse ≤ MAC_TABLE_ENTRIES) :
    (macTableSetSecond mem sg entries t).inUse ≤ MAC_TABLE_ENTRIES := by
  unfold macTableSetSecond
  split_ifs with h0 hfit
  · simp only
    rw [toInt32_of_lt (by unfold MAC_TABLE_ENTRIES at hfit; omega)]
    exact_mod_cast hfit
  · exact ht
  · exact ht

theorem macTableSetFirst_bounded (mem : ℕ → UInt8) (sg : Iovec) (entries : ℕ) {t : MacTable}
    (ht : t.inUse = 0) : (macTableSetFirst mem sg entries t).Bounded := by
  refine ⟨?_, ?_⟩
  · rw [macTableSetFirst_inUse mem sg entries ht]
    exact_mod_cast firstCount_le entries
  · rw [macTableSetFirst_firstMulti mem sg entries ht]
    exact firstCount_le entries

/-- What a MAC command leaves of the table: the table untouched, cleared,
with the first list of a MAC_TABLE_SET, or with both lists. -/
theorem virtioNetHandleMac_cases (n : VirtIONet) (cmd : UInt8) (mem : ℕ → UInt8)
    (elem : VirtQueueElement) :
    ∃ t, (virtioNetHandleMac n cmd mem elem).2 = { n with macTable := t } ∧
      (t = n.macTable ∨ t = n.macTable.cleared ∨
        ∃ sg0 sg1 sg2, elem.outSg = [sg0, sg1, sg2] ∧ cmd = VIRTIO_NET_CTRL_MAC_TABLE_SET ∧
          macListFits sg1 (ldLe mem sg1.iovBase 4) ∧
          (t = macTableSetFirst mem sg1 (ldLe mem sg1.iovBase 4) n.macTable.cleared ∨
            macListFits sg2 (ldLe mem sg2.iovBase 4) ∧
              t = macTableSetSecond mem sg2 (ldLe mem sg2.iovBase 4)
                (macTableSetFirst mem sg1 (ldLe mem sg1.iovBase 4) n.macTable.cleared))) := by
  unfold virtioNetHandleMac
  split
  · rename_i sg0 sg1 sg2 hsg
    dsimp only
    by_cases hguard : cmd ≠ VIRTIO_NET_CTRL_MAC_TABLE_SET ∨ sg1.iovLen < sizeofCtrlMac ∨
        sg2.iovLen < sizeofCtrlMac
    · rw [if_pos hguard]
      exact ⟨n.macTable, rfl, .inl rfl⟩
    rw [if_neg hguard]
    have hcmd : cmd = VIRTIO_NET_CTRL_MAC_TABLE_SET := by
      by_contra hne
      exact hguard (.inl hne)
    by_cases hfit₁ : macListFits sg1 (ldLe mem sg1.iovBase 4)
    swap
    · rw [if_pos hfit₁]
      exact ⟨_, rfl, .inr (.inl rfl)⟩
    rw [if_neg (not_not.2 hfit₁)]
    by_cases hfit₂ : macListFits sg2 (ldLe mem sg2.iovBase 4)
    · rw [if_neg (not_not.2 hfit₂)]
      exact ⟨_, rfl, .inr (.inr ⟨sg0, sg1, sg2, hsg, hcmd, hfit₁, .inr ⟨hfit₂, rfl⟩⟩)⟩
    · rw [if_pos hfit₂]
      exact ⟨_, rfl, .inr (.inr ⟨sg0, sg1, sg2, hsg, hcmd, hfit₁, .inl rfl⟩)⟩
  · exact ⟨n.macTable, rfl, .inl rfl⟩

theorem virtioNetHandleMac_bounded (n : VirtIONet) (cmd : UInt8) (mem : ℕ → UInt8)
    (elem : VirtQueueElement) (hn : n.macTable.Bounded) :
    (virtioNetHandleMac n cmd mem elem).2.macTable.Bounded := by
  obtain ⟨t, heq, rfl | rfl | ⟨-, sg1, sg2, -, -, -, rfl | ⟨-, rfl⟩⟩⟩ :=
    virtioNetHandleMac_cases n cmd mem elem
  all_goals rw [heq]
  · exact hn
  · exact n.macTable.cleared_bounded
  · exact macTableSetFirst_bounded mem sg1 _ rfl
  · have hfirst := macTableSetFirst_bounded mem sg1 (ldLe mem sg1.iovBase 4)
      (t := n.macTable.cleared) rfl
    exact ⟨macTableSetSecond_inUse_le mem sg2 _ hfirst.inUse_le,
      (macTableSetSecond_firstMulti mem sg2 _ _).symm ▸ hfirst.firstMulti_le⟩

theorem setRxMode_macTable {n n' : VirtIONet} {cmd on : UInt8} (h : setRxMode n cmd on = some n') :
    n'.macTable = n.macTable := by
  unfold setRxMode at h
  split_ifs at h <;> (cases h; rfl)

theorem virtioNetHandleRxMode_macTable {n n' : VirtIONet} {cmd st : UInt8} {mem : ℕ → UInt8}
    {elem : VirtQueueElement} (h : virtioNetHandleRxMode n cmd mem elem = some (st, n')) :
    n'.macTable = n.macTable := by
  unfold virtioNetHandleRxMode at h
  split at h
  · split_ifs at h
    split at h
    · cases h
      exact setRxMode_macTable (by assumption)
    · cases h
      rfl
  · cases h

theorem virtioNetHandleVlanTable_macTable (n : VirtIONet) (cmd : UInt8) (mem : ℕ → UInt8)
    (elem : VirtQueueElement) : (virtioNetHandleVlanTable n cmd mem elem).2.macTable = n.macTable := by
  unfold virtioNetHandleVlanTable
  split
  · dsimp only
    split_ifs <;> rfl
  · rfl

/-- What one element of the control loop does: the handler of its class,
or nothing for another class, whose ack is the status carried over; the
ack is stored in the last in-buffer. -/
theorem ctrlElem_cases {n n' : VirtIONet} {mem mem' : ℕ → UInt8} {st st' : UInt8}
    {elem : VirtQueueElement} (h : ctrlElem n mem st elem = some (n', mem', st')) :
    ∃ hdr ack, elem.outSg.head? = some hdr ∧ elem.inSg.getLast? = some ack ∧
      mem' = Function.update mem ack.iovBase st' ∧
      (mem hdr.iovBase = VIRTIO_NET_CTRL_RX_MODE ∧
          virtioNetHandleRxMode n (mem (hdr.iovBase + 1)) mem elem = some (st', n') ∨
        mem hdr.iovBase = VIRTIO_NET_CTRL_MAC ∧
          virtioNetHandleMac n (mem (hdr.iovBase + 1)) mem elem = (st', n') ∨
        mem hdr.iovBase = VIRTIO_NET_CTRL_VLAN ∧
          virtioNetHandleVlanTable n (mem (hdr.iovBase + 1)) mem elem = (st', n') ∨
        (mem hdr.iovBase ≠ VIRTIO_NET_CTRL_RX_MODE ∧ mem hdr.iovBase ≠ VIRTIO_NET_CTRL_MAC ∧
          mem hdr.iovBase ≠ VIRTIO_NET_CTRL_VLAN) ∧ st' = st ∧ n' = n) := by
  unfold ctrlElem at h
  split at h
  · rename_i hdr ack hhdr hack
    dsimp only at h
    split_ifs at h with hlen hrx hmac hvlan
    all_goals
      obtain ⟨⟨st₁, n₁⟩, hr, hres⟩ := Option.map_eq_some_iff.1 h
      cases hres
      refine ⟨hdr, ack, hhdr, hack, rfl, ?_⟩
    · exact .inl ⟨hrx, hr⟩
    · exact .inr (.inl ⟨hmac, Option.some.inj hr⟩)
    · exact .inr (.inr (.inl ⟨hvlan, Option.some.inj hr⟩))
    · cases hr
      exact .inr (.inr (.inr ⟨⟨hrx, hmac, hvlan⟩, rfl, rfl⟩))
  · cases h

theorem ctrlElem_bounded {n n' : VirtIONet} {mem mem' : ℕ → UInt8} {st st' : UInt8}
    {elem : VirtQueueElement} (h : ctrlElem n mem st elem = some (n', mem', st'))
    (hn : n.macTable.Bounded) : n'.macTable.Bounded := by
  obtain ⟨hdr, -, -, -, -, ⟨-, hr⟩ | ⟨-, hr⟩ | ⟨-, hr⟩ | ⟨-, -, rfl⟩⟩ := ctrlElem_cases h
  · rw [virtioNetHandleRxMode_macTable hr]
    exact hn
  · have hb := virtioNetHandleMac_bounded n (mem (hdr.iovBase + 1)) mem elem hn
    rwa [hr] at hb
  · have hv := virtioNetHandleVlanTable_macTable n (mem (hdr.iovBase + 1)) mem elem
    rw [hr] at hv
    rw [hv]
    exact hn
  · exact hn

theorem ctrlLoop_bounded {n n' : VirtIONet} {mem mem' : ℕ → UInt8} {st : UInt8}
    {elems : List VirtQueueElement} (h : ctrlLoop n mem st elems = some (n', mem'))
    (hn : n.macTable.Bounded) : n'.macTable.Bounded := by
  induction elems generalizing n mem st with
  | nil =>
    cases h
    exact hn
  | cons elem elems ih =>
    unfold ctrlLoop at h
    split at h
    · rename_i n₁ mem₁ st₁ h₁
      exact ih h (ctrlElem_bounded h₁ hn)
    · cases h

theorem virtioNetReset_bounded (n : VirtIONet) : (virtioNetReset n).macTable.Bounded :=
  ⟨by simp [virtioNetReset, MAC_TABLE_ENTRIES], by simp [virtioNetReset]⟩

theorem loadMacTable_bounded (p : NetPeer) {t : MacTable} (ht : t.firstMulti ≤ MAC_TABLE_ENTRIES)
    (f : List UInt8) : (loadMacTable p t f).1.Bounded := by
  unfold loadMacTable
  split
  rename_i v f₁ _
  dsimp only
  split_ifs with hle hne
  · exact ⟨hle, ht⟩
  · exact ⟨by simp [MAC_TABLE_ENTRIES], ht⟩
  · exact ⟨by simp at hle; omega, ht⟩

/-- The table `loadRxState` leaves is the one it was given, or what
`loadMacTable` read into it. -/
theorem loadRxState_macTable (p : NetPeer) (n : VirtIONet) (f : List UInt8) (versionId : ℕ) :
    (loadRxState p n f versionId).1.macTable = n.macTable ∨
      ∃ f', (loadRxState p n f versionId).1.macTable = (loadMacTable p n.macTable f').1 := by
  unfold loadRxState
  repeat' split
  all_goals
    first
    | exact .inl rfl
    | exact .inr ⟨_, rfl⟩

theorem loadRxFlags_inUse (n : VirtIONet) (f : List UInt8) (versionId : ℕ) :
    (loadRxFlags n f versionId).1.macTable.inUse = n.macTable.inUse := by
  unfold loadRxFlags
  split_ifs <;> rfl

theorem loadRxFlags_firstMulti (n : VirtIONet) (f : List UInt8) (versionId : ℕ) :
    (loadRxFlags n f versionId).1.macTable.firstMulti = n.macTable.firstMulti := by
  unfold loadRxFlags
  split_ifs <;> rfl

theorem firstMultiOf_le (t : MacTable) : firstMultiOf t ≤ t.inUse.toNat := by
  unfold firstMultiOf
  cases h : (List.range t.inUse.toNat).find? fun i => t.macs (i * ETH_ALEN) &&& 1 != 0 with
  | none => exact le_rfl
  | some i => exact (List.mem_range.1 (List.mem_of_find?_eq_some h)).le

theorem loadRxState_bounded (p : NetPeer) {n : VirtIONet} (hn : n.macTable.Bounded)
    (f : List UInt8) (versionId : ℕ) : (loadRxState p n f versionId).1.macTable.Bounded := by
  rcases loadRxState_macTable p n f versionId with h | ⟨f', h⟩ <;> rw [h]
  · exact hn
  · exact loadMacTable_bounded p hn.firstMulti_le f'

theorem virtioNetLoad_bounded (p : NetPeer) {n : VirtIONet} (hn : n.macTable.Bounded)
    (f : List UInt8) (versionId : ℕ) : (virtioNetLoad p n f versionId).2.1.macTable.Bounded := by
  unfold virtioNetLoad
  simp only
  -- name the result of each stage: virtio_load, the fields up to the bitmap,
  -- the vnet header word, the flags and the UFO byte
  generalize virtioLoad p.supported p.lduw n.vdev f = r₀
  have hrx := loadRxState_bounded p (n := { n with vdev := r₀.2.1 }) hn r₀.2.2 versionId
  generalize loadRxState p { n with vdev := r₀.2.1 } r₀.2.2 versionId = r₁ at hrx ⊢
  generalize (if 7 ≤ versionId then qemuGetBe32 r₁.2 else (0, r₁.2)) = r₂
  have hflags : (loadRxFlags r₁.1 r₂.2 versionId).1.macTable.Bounded :=
    ⟨(loadRxFlags_inUse r₁.1 r₂.2 versionId).symm ▸ hrx.inUse_le,
      (loadRxFlags_firstMulti r₁.1 r₂.2 versionId).symm ▸ hrx.firstMulti_le⟩
  generalize loadRxFlags r₁.1 r₂.2 versionId = r₃ at hflags ⊢
  generalize (if 11 ≤ versionId then qemuGetByte r₃.2 else (0, r₃.2)) = r₄
  split_ifs
  · exact hn
  · exact hn
  · exact hrx
  · exact hflags
  · refine ⟨hflags.inUse_le, (firstMultiOf_le _).trans ?_⟩
    have := hflags.inUse_le
    omega


theorem netStep_bounded (p : NetPeer) {n n' : VirtIONet} {ev : NetEvent}
    (h : netStep p n ev = some n') (hn : n.macTable.Bounded) : n'.macTable.Bounded := by
  cases ev with
  | reset =>
    cases h
    exact virtioNetReset_bounded n
  | ctrl mem elems =>
    obtain ⟨⟨n₁, mem₁⟩, hloop, rfl⟩ := Option.map_eq_some_iff.1 h
    exact ctrlLoop_bounded hloop hn
  | load f versionId =>
    simp only [netStep] at h
    split at h
    · rename_i n₁ f₁ heq
      cases h
      have hb := virtioNetLoad_bounded p hn f versionId
      rw [heq] at hb
      exact hb
    · cases h

theorem netRun_bounded (p : NetPeer) {n n' : VirtIONet} {evs : List NetEvent}
    (h : netRun p n evs = some n') (hn : n.macTable.Bounded) : n'.macTable.Bounded := by
  induction evs generalizing n with
  | nil =>
    cases h
    exact hn
  | cons ev evs ih =>
    unfold netRun at h
    split at h
    · rename_i n₁ hstep
      exact ih h (netStep_bounded p hstep hn)
    · cases h

/-! ## What `receive_filter` reads

The filter reads the receive modes, the two counts, the device's address,
the entries of the MAC table below both counts and the word of the VLAN
bitmap of the frame's id; `receiveFilter_congr` says that nothing else
decides its verdict. -/

/-- Two devices agree on everything `receive_filter` reads of `n`. -/
structure FilterAgree (n n' : VirtIONet) : Prop where
  promisc : n'.promisc = n.promisc
  hasVnetHdr : n'.hasVnetHdr = n.hasVnetHdr
  allmulti : n'.allmulti = n.allmulti
  alluni : n'.alluni = n.alluni
  nomulti : n'.nomulti = n.nomulti
  nouni : n'.nouni = n.nouni
  nobcast : n'.nobcast = n.nobcast
  inUse : n'.macTable.inUse = n.macTable.inUse
  firstMulti : n'.macTable.firstMulti = n.macTable.firstMulti
  multiOverflow : n'.macTable.multiOverflow = n.macTable.multiOverflow
  uniOverflow : n'.macTable.uniOverflow = n.macTable.uniOverflow
  mac : ∀ a < ETH_ALEN, n'.mac a = n.mac a
  vlans : ∀ a < MAX_VLAN >>> 3, n'.vlans a = n.vlans a
  macs : ∀ a < ETH_ALEN * max n.macTable.inUse.toNat n.macTable.firstMulti,
    n'.macTable.macs a = n.macTable.macs a

theorem bytesEq_congr (p : ℕ → UInt8) {q q' : ℕ → UInt8} {j len : ℕ}
    (h : ∀ k < len, q' (j + k) = q (j + k)) : bytesEq p q' j len = bytesEq p q j len := by
  unfold bytesEq
  rw [Bool.eq_iff_iff, List.all_eq_true, List.all_eq_true]
  refine forall₂_congr fun k hk => ?_
  rw [h k (List.mem_range.1 hk)]

theorem macTableHas_congr (ptr : ℕ → UInt8) {macs macs' : ℕ → UInt8} (lo : ℕ) (hi : ℤ)
    (h : ∀ a < ETH_ALEN * hi.toNat, macs' a = macs a) :
    macTableHas ptr macs' lo hi = macTableHas ptr macs lo hi := by
  unfold macTableHas
  rw [Bool.eq_iff_iff, List.any_eq_true, List.any_eq_true]
  refine exists_congr fun i => and_congr_right fun hi' => ?_
  have hlt : i < hi.toNat := by
    have := List.mem_range'_1.1 hi'
    omega
  rw [bytesEq_congr ptr fun k hk => h _ ?_]
  unfold ETH_ALEN at hk ⊢
  omega

theorem vlanSet_congr {vlans vlans' : ℕ → UInt8} {vid : ℕ} (hvid : vid < MAX_VLAN)
    (h : ∀ a < MAX_VLAN >>> 3, vlans' a = vlans a) : vlanSet vlans' vid = vlanSet vlans vid := by
  have hword : ldLe vlans' (4 * (vid >>> 5)) 4 = ldLe vlans (4 * (vid >>> 5)) 4 :=
    ldLe_congr fun x _ hx => h x (by
      unfold MAX_VLAN at hvid ⊢
      rw [Nat.shiftRight_eq_div_pow] at hx ⊢
      omega)
  simp only [vlanSet, vlanWord, hword]

/-- `receive_filter` decides from what `FilterAgree` names and nothing else. -/
theorem receiveFilter_congr {n n' : VirtIONet} (h : FilterAgree n n') (buf : ℕ → UInt8) :
    receiveFilter n' buf = receiveFilter n buf := by
  -- the id is masked to 12 bits, so its word is inside the bitmap
  have hvlan : ∀ x, vlanSet n'.vlans (x &&& 0xfff) = vlanSet n.vlans (x &&& 0xfff) :=
    fun x => vlanSet_congr (lt_of_le_of_lt Nat.and_le_right (by decide)) h.vlans
  have hmulti : ∀ ptr, macTableHas ptr n'.macTable.macs n.macTable.firstMulti n.macTable.inUse =
      macTableHas ptr n.macTable.macs n.macTable.firstMulti n.macTable.inUse :=
    fun ptr => macTableHas_congr ptr _ _ fun a ha => h.macs a (by
      have := Nat.le_max_left n.macTable.inUse.toNat n.macTable.firstMulti
      unfold ETH_ALEN at ha ⊢
      omega)
  have huni : ∀ ptr, macTableHas ptr n'.macTable.macs 0 n.macTable.firstMulti =
      macTableHas ptr n.macTable.macs 0 n.macTable.firstMulti :=
    fun ptr => macTableHas_congr ptr _ _ fun a ha => h.macs a (by
      have := Nat.le_max_right n.macTable.inUse.toNat n.macTable.firstMulti
      simp only [Int.toNat_natCast] at ha
      unfold ETH_ALEN at ha ⊢
      omega)
  have hmac : ∀ ptr, bytesEq ptr n'.mac 0 ETH_ALEN = bytesEq ptr n.mac 0 ETH_ALEN :=
    fun ptr => bytesEq_congr ptr fun k hk => h.mac _ (by omega)
  unfold receiveFilter
  simp only [h.promisc, h.hasVnetHdr, h.allmulti, h.alluni, h.nomulti, h.nouni, h.nobcast,
    h.inUse, h.firstMulti, h.multiOverflow, h.uniOverflow, hvlan, hmulti, huni, hmac]

end QemuKvm.Virtio.Net
