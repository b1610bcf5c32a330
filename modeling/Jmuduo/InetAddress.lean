-- The addresses of the sockets (InetAddress.cc, SocketOps.cc, Socket.cc): how one
-- is made from a text, from a port or from what the kernel writes, and what it
-- shows.
import Jmuduo.Acceptor
import Jmuduo.BufferIntegers
import Jmuduo.Dotted

open endian numerals dotted descriptors

namespace jmuduo.net

/-! ## The addresses of the kernel -/

def AF_INET : BitVec 16 := 2

def INADDR_ANY : BitVec 32 := 0

def INADDR_LOOPBACK : BitVec 32 := 0x7f000001

/-- `struct sockaddr_in`. The words of its port and its address are in the
order of the network. -/
structure SockaddrIn where
  sin_family : BitVec 16
  sin_port : BitVec 16
  sin_addr : BitVec 32
  sin_zero : BitVec 64
  deriving DecidableEq, Repr

namespace SockaddrIn

/-- The struct after `bzero`. -/
def zeroed : SockaddrIn := ⟨0, 0, 0, 0⟩

/-- The sixteen bytes of the struct. -/
def memory (addr : SockaddrIn) : List Byte :=
  toMemory 2 addr.sin_family ++ (toMemory 2 addr.sin_port ++
    (toMemory 4 addr.sin_addr ++ toMemory 8 addr.sin_zero))

def ofBytes (bs : List Byte) : SockaddrIn where
  sin_family := ofMemory 2 (bs.take 2)
  sin_port := ofMemory 2 ((bs.drop 2).take 2)
  sin_addr := ofMemory 4 ((bs.drop 4).take 4)
  sin_zero := ofMemory 8 ((bs.drop 8).take 8)

end SockaddrIn

namespace socket

/-! ## The calls of the source -/

/-- `inet_pton` writes the octets in their order, and a text that it does not
take leaves `failed`. -/
def fromIpPort (zeros : Bool) (failed : BitVec 32) (ip : List Char) (port : BitVec 16)
    (addr : SockaddrIn) : SockaddrIn :=
  { addr with
    sin_family := AF_INET
    sin_port := hostToNetwork16 port
    sin_addr := match read zeros ip with
      | some q => ofMemory 4 q.octets
      | none => failed }

/-- The octets of an address, in their order in memory. -/
def quad (ip : BitVec 32) : Quad := ⟨toMemory 4 ip, toMemory_length 4 ip⟩

/-- `inet_ntop` writes nothing where the text does not fit. -/
def toIp (ip : BitVec 32) (dst : List Char) : List Char := intoBuffer dst (write (quad ip))

/-- The size that `accept` gives to the kernel is the one of a pointer, so the
kernel writes the first eight bytes. -/
def accept (peer addr : SockaddrIn) : SockaddrIn :=
  .ofBytes (peer.memory.take 8 ++ addr.memory.drop 8)

end socket

structure InetAddress where
  addr_ : SockaddrIn
  deriving DecidableEq, Repr

namespace InetAddress

/-- The constructor with a text. -/
def construct (zeros : Bool) (failed : BitVec 32) (ip : List Char) (port : BitVec 16) :
    InetAddress :=
  ⟨socket.fromIpPort zeros failed ip port .zeroed⟩

/-- The constructor with a port alone. -/
def ofPort (port : BitVec 16) (loopbackonly : Bool) : InetAddress :=
  let ip := if loopbackonly then INADDR_ANY else INADDR_LOOPBACK
  ⟨{ SockaddrIn.zeroed with
    sin_family := AF_INET
    sin_port := socket.hostToNetwork16 port
    sin_addr := socket.hostToNetwork32 ip }⟩

def family (a : InetAddress) : BitVec 16 := a.addr_.sin_family

def setInetAddress (addr : SockaddrIn) (_ : InetAddress) : InetAddress := ⟨addr⟩

def toPort (a : InetAddress) : BitVec 16 := socket.networkToHost16 a.addr_.sin_port

def toIp (a : InetAddress) : List Char :=
  stringOf (socket.toIp a.addr_.sin_addr (List.replicate 32 nul))

/-- `Socket::accept`, with its result and the address of the peer. -/
def accept (connd : Int) (peer : SockaddrIn) (peeraddr : InetAddress) : InetAddress :=
  let addr := SockaddrIn.zeroed
  let addr := if connd ≥ 0 then socket.accept peer addr else addr
  if connd > 0 then peeraddr.setInetAddress addr else peeraddr

/-- What `Acceptor::handleRead` gives to `newConnectionCallback_`: the descriptor and
the address of the peer, if the callback is set. -/
def accepted {κ : Type} (zeros : Bool) (failed : BitVec 32) (peer : SockaddrIn)
    (a : Acceptor.Answers) (s : Acceptor κ) : Option (Int × InetAddress) :=
  let addr := construct zeros failed "0.0.0.0".toList 0
  let connd := a.accept
  let addr := accept connd peer addr
  if connd ≥ 0 then
    if s.newConnectionCallback_ then some (connd, addr) else none
  else none

/-! ## The text and the bytes -/

/-- The text always fits its buffer. -/
theorem toIp_eq (a : InetAddress) : a.toIp = write (socket.quad a.addr_.sin_addr) := by
  have hlen := write_length_le (socket.quad a.addr_.sin_addr)
  unfold toIp socket.toIp
  apply stringOf_intoBuffer
  · rw [List.length_replicate]
    omega
  · exact nul_not_mem_write _

theorem quad_ofMemory (q : Quad) : socket.quad (ofMemory 4 q.octets) = q := by
  unfold socket.quad
  simp only [toMemory_ofMemory q.four]

theorem ofMemory_quad (ip : BitVec 32) : ofMemory 4 (socket.quad ip).octets = ip :=
  ofMemory_toMemory 4 ip

theorem quad_injective : Function.Injective socket.quad := by
  intro ip ip' h
  rw [← ofMemory_quad ip, h, ofMemory_quad]

@[simp] theorem networkToHost16_hostToNetwork16 (port : BitVec 16) :
    socket.networkToHost16 (socket.hostToNetwork16 port) = port :=
  byteSwap_byteSwap 2 port

@[simp] theorem hostToNetwork16_networkToHost16 (port : BitVec 16) :
    socket.hostToNetwork16 (socket.networkToHost16 port) = port :=
  byteSwap_byteSwap 2 port

/-- Text that `inet_pton` takes is stored, octet by octet. -/
theorem construct_of_read {zeros : Bool} {failed : BitVec 32} {ip : List Char} {q : Quad}
    (h : read zeros ip = some q) (port : BitVec 16) :
    construct zeros failed ip port =
      ⟨⟨AF_INET, socket.hostToNetwork16 port, ofMemory 4 q.octets, 0⟩⟩ := by
  unfold construct socket.fromIpPort
  rw [h]
  rfl

/-- The text of an address gives it back, with its port. -/
theorem construct_toIp (zeros : Bool) (failed : BitVec 32) {addr : SockaddrIn}
    (hfamily : addr.sin_family = AF_INET) (hzero : addr.sin_zero = 0) :
    construct zeros failed (toIp ⟨addr⟩) (toPort ⟨addr⟩) = ⟨addr⟩ := by
  rw [toIp_eq, construct_of_read (read_write zeros _), ofMemory_quad, toPort,
    hostToNetwork16_networkToHost16, ← hfamily, ← hzero]

/-- An address shows the text that it was made from exactly if that is a text
of four octets. -/
theorem toIp_construct_iff (zeros : Bool) (failed : BitVec 32) (ip : List Char)
    (port : BitVec 16) : (construct zeros failed ip port).toIp = ip ↔ ∃ q, ip = write q := by
  constructor
  · intro h
    rw [toIp_eq] at h
    exact ⟨_, h.symm⟩
  · rintro ⟨q, rfl⟩
    rw [toIp_eq, construct_of_read (read_write zeros q), quad_ofMemory]

theorem construct_port (zeros : Bool) (failed : BitVec 32) (ip : List Char) (port : BitVec 16) :
    (construct zeros failed ip port).toPort = port :=
  networkToHost16_hostToNetwork16 port

/-- The struct with the bytes of its fields one after the other. -/
theorem ofBytes_append {family port ip zero : List Byte} (h2 : family.length = 2)
    (h4 : port.length = 2) (h8 : ip.length = 4) (h16 : zero.length = 8) :
    SockaddrIn.ofBytes (family ++ (port ++ (ip ++ zero))) =
      ⟨ofMemory 2 family, ofMemory 2 port, ofMemory 4 ip, ofMemory 8 zero⟩ := by
  unfold SockaddrIn.ofBytes
  simp [List.drop_append, List.take_of_length_le, List.drop_of_length_le, h2, h4, h8, h16]

/-- The first eight bytes are all but `sin_zero`. -/
theorem accept_eq (peer addr : SockaddrIn) :
    socket.accept peer addr = { peer with sin_zero := addr.sin_zero } := by
  have htake : peer.memory.take 8 =
      toMemory 2 peer.sin_family ++ (toMemory 2 peer.sin_port ++ toMemory 4 peer.sin_addr) := by
    unfold SockaddrIn.memory
    simp [List.take_append, List.take_of_length_le]
  have hdrop : addr.memory.drop 8 = toMemory 8 addr.sin_zero := by
    unfold SockaddrIn.memory
    simp [List.drop_append, List.drop_of_length_le]
  unfold socket.accept
  rw [htake, hdrop, List.append_assoc, List.append_assoc, ofBytes_append (by simp) (by simp)
    (by simp) (by simp), ofMemory_toMemory, ofMemory_toMemory, ofMemory_toMemory,
    ofMemory_toMemory]

/-! ## The laws -/

/-- An address that was made from a text shows that text exactly if it is four
octets, written without leading zeros, which is what a strict `inet_pton`
takes. It shows the port that it was made with, and the text and the port of an
address make it again. The text of an address and its `nul` always fit the
buffer. The constructor with a port alone takes the loopback exactly if it is
not asked to. -/
theorem an_address_and_its_text_make_each_other (zeros : Bool) (failed : BitVec 32)
    (ip : List Char) (port : BitVec 16) :
    ((construct zeros failed ip port).toIp = ip ↔ ∃ q, ip = write q) ∧
    ((construct false failed ip port).toIp = ip ↔ read false ip ≠ none) ∧
    (construct zeros failed ip port).toPort = port ∧
    (∀ a : InetAddress, a.addr_.sin_family = AF_INET → a.addr_.sin_zero = 0 →
      construct zeros failed a.toIp a.toPort = a) ∧
    (∀ a : InetAddress, a.toIp = write (socket.quad a.addr_.sin_addr) ∧ a.toIp.length < 32) ∧
    ∀ loopbackonly, (ofPort port loopbackonly).toPort = port ∧
      (ofPort port loopbackonly).toIp =
        (if loopbackonly then "0.0.0.0" else "127.0.0.1").toList := by
  refine ⟨toIp_construct_iff zeros failed ip port, ?_, construct_port zeros failed ip port,
    fun a hfamily hzero => construct_toIp zeros failed hfamily hzero, fun a => ⟨toIp_eq a, ?_⟩,
    fun loopbackonly => ?_⟩
  · rw [toIp_construct_iff, Option.ne_none_iff_exists']
    exact exists_congr fun q => read_eq_some.symm
  · rw [toIp_eq]
    have hlen := write_length_le (socket.quad a.addr_.sin_addr)
    omega
  · refine ⟨networkToHost16_hostToNetwork16 port, ?_⟩
    have haddr : (ofPort port loopbackonly).addr_.sin_addr =
        socket.hostToNetwork32 (if loopbackonly then INADDR_ANY else INADDR_LOOPBACK) := rfl
    rw [toIp_eq, haddr]
    cases loopbackonly <;> decide +kernel

/-- The address of the loopback shows `127.0.0.1` and its port, and they make it again. -/
theorem the_loopback_and_its_text_make_each_other : ∃ a : InetAddress,
    a.addr_.sin_family = AF_INET ∧ a.addr_.sin_zero = 0 ∧ a.toIp = "127.0.0.1".toList ∧
    a.toPort = 80 ∧ construct false 0 "127.0.0.1".toList 80 = a := by
  obtain ⟨_, _, _, hagain, _, hport⟩ :=
    an_address_and_its_text_make_each_other false 0 "127.0.0.1".toList 80
  obtain ⟨htoPort, htoIp⟩ := hport false
  have ha := hagain (ofPort 80 false) rfl rfl
  rw [htoIp, htoPort] at ha
  exact ⟨ofPort 80 false, rfl, rfl, htoIp, htoPort, ha⟩

/-- Two addresses that show the same have the same words. -/
theorem shows_same_iff (addr addr' : SockaddrIn) :
    (toIp ⟨addr⟩ = toIp ⟨addr'⟩ ∧ toPort ⟨addr⟩ = toPort ⟨addr'⟩) ↔
      addr.sin_addr = addr'.sin_addr ∧ addr.sin_port = addr'.sin_port := by
  constructor
  · rintro ⟨hip, hport⟩
    rw [toIp_eq, toIp_eq] at hip
    refine ⟨quad_injective (write_injective hip), ?_⟩
    unfold toPort at hport
    rw [← hostToNetwork16_networkToHost16 addr.sin_port, hport, hostToNetwork16_networkToHost16]
  · rintro ⟨hip, hport⟩
    rw [toIp_eq, toIp_eq]
    unfold toPort
    simp only [hip, hport, and_self]

/-- What `Socket::accept` stores shows the peer, but for the descriptor 0: that one
leaves the `0.0.0.0` and the port 0 that the address was made with. -/
theorem accept_shows_iff (zeros : Bool) (failed : BitVec 32) {connd : Int} (hpos : 0 ≤ connd)
    (peer : SockaddrIn) {a : InetAddress}
    (ha : a = accept connd peer (construct zeros failed "0.0.0.0".toList 0)) :
    (a.toIp = toIp ⟨peer⟩ ∧ a.toPort = toPort ⟨peer⟩) ↔
      connd ≠ 0 ∨ peer.sin_addr = 0 ∧ peer.sin_port = 0 := by
  subst ha
  unfold accept
  simp only [if_pos hpos, ge_iff_le, gt_iff_lt]
  rw [accept_eq]
  by_cases hzero : connd = 0
  · have hwrite : "0.0.0.0".toList = write ⟨[0, 0, 0, 0], rfl⟩ := by decide +kernel
    have hdefault : read zeros "0.0.0.0".toList = some ⟨[0, 0, 0, 0], rfl⟩ := by
      rw [hwrite]
      exact read_write zeros _
    have hip : ofMemory 4 [0, 0, 0, 0] = 0 := by decide
    have hport : socket.hostToNetwork16 0 = 0 := by decide
    rw [if_neg (by omega), construct_of_read hdefault, shows_same_iff, hip, hport]
    simp only [hzero, ne_eq, not_true_eq_false, false_or]
    rw [eq_comm, eq_comm (a := (0 : BitVec 16))]
  · rw [if_pos (by omega)]
    unfold setInetAddress
    rw [shows_same_iff]
    simp [hzero]

theorem useReserve_handed {κ : Type} (a : Acceptor.Answers) (s : Acceptor κ) :
    (s.useReserve a).ledger.handed = s.ledger.handed := by
  simp [Acceptor.useReserve]

/-- What `handleRead` does with the descriptor: it hands it over with the address,
closes it where no callback is set, or there is none. -/
theorem handleRead_cases {κ : Type} (zeros : Bool) (failed : BitVec 32) (peer : SockaddrIn)
    (a : Acceptor.Answers) (s : Acceptor κ) :
    (0 ≤ a.accept ∧ s.newConnectionCallback_ = true ∧
      accepted zeros failed peer a s = some (a.accept,
        accept a.accept peer (construct zeros failed "0.0.0.0".toList 0)) ∧
      (s.handleRead a).ledger = (s.ledger.gain a.accept).hand a.accept) ∨
    (0 ≤ a.accept ∧ s.newConnectionCallback_ = false ∧ accepted zeros failed peer a s = none ∧
      (s.handleRead a).ledger = (s.ledger.gain a.accept).close a.accept) ∨
    (a.accept < 0 ∧ accepted zeros failed peer a s = none ∧
      (s.handleRead a).ledger.handed = s.ledger.handed) := by
  unfold accepted Acceptor.handleRead
  by_cases hpos : 0 ≤ a.accept
  · simp only [ge_iff_le, if_pos hpos]
    cases hset : s.newConnectionCallback_ with
    | true => exact Or.inl ⟨hpos, rfl, rfl, rfl⟩
    | false => exact Or.inr (Or.inl ⟨hpos, rfl, rfl, rfl⟩)
  · simp only [ge_iff_le, if_neg hpos]
    refine Or.inr (Or.inr ⟨by omega, trivial, ?_⟩)
    split
    · rw [useReserve_handed]
      exact s.ledger.gain_handed a.accept
    · exact s.ledger.gain_handed a.accept

/-- `Acceptor::handleRead` hands over a connection exactly if there is one and a callback
is set, and closes it where none is. It comes with the address of the peer in every
field, though `accept` asks for eight bytes only, but for a connection with the
descriptor 0: that one comes as `0.0.0.0` with the port 0. -/
theorem the_acceptor_hands_over_the_peer_but_for_descriptor_zero {κ : Type} (zeros : Bool)
    (failed : BitVec 32) (peer : SockaddrIn) (a : Acceptor.Answers) (s : Acceptor κ) :
    (accepted zeros failed peer a s ≠ none ↔
      0 ≤ a.accept ∧ s.newConnectionCallback_ = true) ∧
    (s.handleRead a).ledger.handed = s.ledger.handed ++
      (if 0 ≤ a.accept ∧ s.newConnectionCallback_ = true then [s.ledger.next] else []) ∧
    (0 ≤ a.accept → s.newConnectionCallback_ = false →
      (s.handleRead a).ledger.closed = s.ledger.closed ++ [s.ledger.next] ∧
      (s.handleRead a).ledger.table a.accept = none) ∧
    ∀ connd addr, accepted zeros failed peer a s = some (connd, addr) → connd = a.accept ∧
      ((addr.toIp = toIp ⟨peer⟩ ∧ addr.toPort = toPort ⟨peer⟩) ↔
        connd ≠ 0 ∨ peer.sin_addr = 0 ∧ peer.sin_port = 0) := by
  rcases handleRead_cases zeros failed peer a s with
    ⟨hpos, hset, haccepted, hledger⟩ | ⟨hpos, hset, haccepted, hledger⟩ | ⟨hneg, haccepted, hhanded⟩
  · rw [haccepted, hledger, (Ledger.hand_gain hpos s.ledger).1, if_pos ⟨hpos, hset⟩]
    refine ⟨by simp [hpos, hset], rfl, fun _ hno => ?_, fun connd addr he => ?_⟩
    · rw [hset] at hno
      cases hno
    · obtain ⟨rfl, rfl⟩ := Prod.mk.inj (Option.some.inj he)
      exact ⟨rfl, accept_shows_iff zeros failed hpos peer rfl⟩
  · rw [haccepted, hledger, if_neg (by simp [hset])]
    refine ⟨by simp [hset], by simp, fun _ _ => Ledger.close_gain hpos s.ledger, ?_⟩
    rintro connd addr ⟨⟩
  · rw [haccepted, hhanded, if_neg (by omega)]
    refine ⟨by simp [hneg], by simp, fun hpos => absurd hneg (by omega), ?_⟩
    rintro connd addr ⟨⟩

/-- An acceptor with a callback that has seen no connection yet, and holds its socket
and its reserve. -/
def listening : Acceptor Unit where
  ledger := (Ledger.gain 3 ⟨fun _ => none, 0, [], [], []⟩).gain 4
  channels := .start fun _ => 3
  acceptSocket_ := 3
  acceptChannel_ := ()
  listenning_ := true
  idleFd_ := 4
  newConnectionCallback_ := true
  destroyed := false

/-- A connection of the loopback is handed over with its address. -/
theorem the_acceptor_hands_over_a_peer : ∃ addr,
    accepted false 0 ⟨AF_INET, 0x5000, 0x0100007f, 0⟩ ⟨5, 0, -1, -1⟩ listening = some (5, addr) ∧
    (listening.handleRead ⟨5, 0, -1, -1⟩).ledger.handed = [2] ∧
    addr.toIp = toIp ⟨⟨AF_INET, 0x5000, 0x0100007f, 0⟩⟩ := by
  obtain ⟨haccepted, hhanded, _, haddr⟩ := the_acceptor_hands_over_the_peer_but_for_descriptor_zero
    false 0 ⟨AF_INET, 0x5000, 0x0100007f, 0⟩ ⟨5, 0, -1, -1⟩ listening
  obtain ⟨⟨connd, addr⟩, hsome⟩ := Option.ne_none_iff_exists'.mp (haccepted.mpr (by decide))
  obtain ⟨rfl, hshows⟩ := haddr connd addr hsome
  exact ⟨addr, hsome, hhanded, (hshows.mpr (Or.inl (by decide))).1⟩

end InetAddress

end jmuduo.net
