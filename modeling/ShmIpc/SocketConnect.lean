import ShmIpc.SocketFd

/-!
# Connecting with the family of the socket

A connection is tried with an address of the family of the socket that has the
same normal form as the address asked for, or it is refused without a call.
-/
namespace ShmIpcSocketConnect

open ByteOrder ShmIpcSocketAddress ShmIpcSocketMapped ShmIpcSocketFd

/-- One call of `connect`, with an address of the family that denotes the same endpoint. -/
def Connected (host : Endian) (fd : Int) (sa : Sockaddr) (family : Family) (w : World)
    (out : Except String Bool × World) : Prop :=
  ∃ address length c c', out.2.calls = w.calls ++ [.connect fd address length] ∧
    address.saFamily = family ∧ saLength address = .ok length ∧ saConvert host (some address) = .ok
    c ∧ saConvert host (some sa) = .ok c' ∧ saEqual c c' = .ok true

/-- No call is made and `errno` says why. -/
def Rejected (w : World) (out : Except String Bool × World) : Prop :=
  out.2.calls = w.calls ∧ out.1 = .ok false ∧ out.2.errno = .EINVAL

/-- No address of the family denotes the endpoint. -/
def Unreachable (sa : Sockaddr) (family : Family) : Prop :=
  saIsInetInet6 (some sa) = false ∨
    (family = .inet ∧ sa.saFamily = .inet6 ∧ saIsV4mapped (some sa) = false)

theorem not_connected_of_rejected {host : Endian} {fd : Int} {sa : Sockaddr}
    {family : Family} {w : World} {out : Except String Bool × World} (h : Rejected w out) :
    ¬ Connected host fd sa family w out := by
  rintro ⟨address, length, c, c', hcalls, _⟩
  rw [h.1] at hcalls
  simp at hcalls

section
variable (k : Kernel)

theorem invoke_calls (call : Call) (w : World) : (invoke k call w).2.calls = w.calls ++ [call] := by
  unfold invoke
  split <;> rfl

theorem saLength_valid {sa : Sockaddr} (h : sa.saFamily.valid = true) :
    ∃ length, saLength sa = .ok length := by
  cases sa with
  | unspec => exact ⟨_, rfl⟩
  | inet sin => exact ⟨_, rfl⟩
  | inet6 sin6 => exact ⟨_, rfl⟩
  | _ => cases h

theorem fdConnect_calls (fd : Int) {sa : Sockaddr} (h : sa.saFamily.valid = true) (w : World) :
    ∃ b length, (fdConnect k fd sa w).1 = .ok b ∧ saLength sa = .ok length ∧
      (fdConnect k fd sa w).2.calls = w.calls ++ [.connect fd sa length] := by
  obtain ⟨length, hlength⟩ := saLength_valid h
  have hcalls := invoke_calls k (.connect fd sa length) w
  rcases hinvoke : invoke k (.connect fd sa length) w with ⟨result, w'⟩
  rw [hinvoke] at hcalls
  simp only [fdConnect, hlength, hinvoke]
  cases result with
  | some value => exact ⟨true, length, rfl, rfl, hcalls⟩
  | none => exact ⟨w'.errno == .EINPROGRESS, length, rfl, rfl, hcalls⟩

/-- Connecting with an address that has the same normal form. -/
theorem connected_fdConnect (host : Endian) (fd : Int) (sa address : Sockaddr)
    {family : Family} (w : World) (hsa : sa.saFamily.valid = true)
    (hfamily : address.saFamily = family) (hvalid : family.valid = true)
    (hsame : unmapped host address = unmapped host sa) :
    (∃ b, (fdConnect k fd address w).1 = .ok b) ∧ Connected host fd sa family w
    (fdConnect k fd address w) := by
  have haddress : address.saFamily.valid = true := by rwa [hfamily]
  obtain ⟨b, length, hb, hlength, hcalls⟩ := fdConnect_calls k fd haddress w
  refine ⟨⟨b, hb⟩, address, length, unmapped host address, unmapped host sa,
    hcalls, hfamily, hlength, saConvert_ok host haddress, saConvert_ok host hsa, ?_⟩
  rw [hsame]
  exact saEqual_self (valid_unmapped host hsa)

theorem saFromV4mapped_mapped (host : Endian) {sin6 : SockaddrIn6}
    (h : sin6IsV4mapped (some sin6) = true) :
    saFromV4mapped host (some (.inet6 sin6)) = .ok (.inet (unmappedIn host sin6)) := by
  rw [saFromV4mapped, saFromV4mappedIn6, sinFromV4mappedIn6_mapped host h]
  rfl

/-- What becomes of an address that the socket cannot reach. -/
theorem rejected_of_unreachable (host : Endian) (fd : Int) {sa : Sockaddr}
    {family : Family} (w : World) (h : Unreachable sa family) :
    Rejected w (fdConnectWithFamily k host fd sa family w) := by
  cases sa with
  | inet sin =>
    rcases h with h | ⟨_, h, _⟩
    · cases h
    · cases h
  | inet6 sin6 =>
    rcases h with h | ⟨rfl, _, h⟩
    · cases h
    · simp [fdConnectWithFamily, h, Rejected]
  | _ => exact ⟨rfl, rfl, rfl⟩

theorem connected_of_reachable (host : Endian) (fd : Int) {sa : Sockaddr}
    {family : Family} (w : World) (hfamily : family = .inet ∨ family = .inet6)
    (h : ¬ Unreachable sa family) : (∃ b, (fdConnectWithFamily k host fd sa family w).1 = .ok b) ∧
      Connected host fd sa family w (fdConnectWithFamily k host fd sa family w) := by
  obtain ⟨hinet, hmapped⟩ := not_or.mp h
  cases sa with
  | inet sin =>
    rcases hfamily with rfl | rfl
    · exact connected_fdConnect k host fd (.inet sin) (.inet sin) w rfl rfl rfl rfl
    · -- an IPv4 address over an IPv6 socket is mapped
      exact connected_fdConnect k host fd (.inet sin) (saToV4mappedIn host sin) w rfl rfl rfl
        (unmapped_saToV4mappedIn host sin)
  | inet6 sin6 =>
    rcases hfamily with rfl | rfl
    · have hm : sin6IsV4mapped (some sin6) = true := by
        by_contra hn
        exact hmapped ⟨rfl, rfl, eq_false_of_ne_true hn⟩
      have hcall : fdConnectWithFamily k host fd (.inet6 sin6) .inet w =
          fdConnect k fd (.inet (unmappedIn host sin6)) w := by
        simp [fdConnectWithFamily, saIsV4mapped, hm, saFromV4mapped_mapped]
      rw [hcall]
      refine connected_fdConnect k host fd (.inet6 sin6)
        (.inet (unmappedIn host sin6)) w rfl rfl rfl ?_
      simp [unmapped, hm]
    · exact connected_fdConnect k host fd (.inet6 sin6) (.inet6 sin6) w rfl rfl rfl rfl
  | _ => exact absurd rfl hinet

/-- An endpoint is connected to in the family of the socket, or refused exactly where it has no
address there. -/
theorem connect_respects_family (host : Endian) (fd : Int) (sa : Sockaddr)
    (family : Family) (w : World) (hfamily : family = .inet ∨ family = .inet6) :
    (∃ b, (fdConnectWithFamily k host fd sa family w).1 = .ok b) ∧
    (Connected host fd sa family w (fdConnectWithFamily k host fd sa family w) ↔
      ¬ Unreachable sa family) ∧
    (Rejected w (fdConnectWithFamily k host fd sa family w) ↔ Unreachable sa family) := by
  by_cases h : Unreachable sa family
  · have hrejected := rejected_of_unreachable k host fd w h
    exact ⟨⟨false, hrejected.2.1⟩,
      iff_of_false (not_connected_of_rejected hrejected) (not_not_intro h), iff_of_true hrejected h⟩
  · obtain ⟨hb, hconnected⟩ := connected_of_reachable k host fd w hfamily h
    have hrejected := fun hr => not_connected_of_rejected hr hconnected
    exact ⟨hb, iff_of_true hconnected h, iff_of_false hrejected h⟩

end

/-- A mapped address over an IPv4 socket. -/
theorem connect_respects_family_localhost :
    (∃ b, (fdConnectWithFamily (willing .unspec) .little 3 (.inet6 mappedLocalhost) .inet
      ⟨[], {3}, .EINVAL⟩).1 = .ok b) ∧
    (Connected .little 3 (.inet6 mappedLocalhost) .inet ⟨[], {3}, .EINVAL⟩
      (fdConnectWithFamily (willing .unspec) .little 3 (.inet6 mappedLocalhost)
        .inet ⟨[], {3}, .EINVAL⟩) ↔ ¬ Unreachable (.inet6 mappedLocalhost) .inet) ∧
    (Rejected ⟨[], {3}, .EINVAL⟩
      (fdConnectWithFamily (willing .unspec) .little 3 (.inet6 mappedLocalhost)
        .inet ⟨[], {3}, .EINVAL⟩) ↔ Unreachable (.inet6 mappedLocalhost) .inet) :=
  connect_respects_family (willing .unspec) .little 3 (.inet6 mappedLocalhost) .inet
    ⟨[], {3}, .EINVAL⟩ (.inl rfl)

end ShmIpcSocketConnect
