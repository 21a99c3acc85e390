import Paxe.Counters
import Paxe.Rejection
import Paxe.Verdict

/-!
# The pipeline of a protected socket

A protected socket asks `lunet_paxe_frame_for_us` about each datagram and
passes it to `lunet_paxe_open` only on a 1. The gate reads the header by
itself, and both stages count; here they are one machine.
-/

namespace Paxe
open Wire

/-- A received datagram, with memory for its payload. -/
structure Datagram where
  bytes : Bytes
  mem : OpenOut
  ready : mem.Ready bytes.length

structure Handled where
  verdict : Exit
  opened : Option (Exit × OpenOut)

def Session.receive (L : Libsodium) (s : Session) (d : Datagram) : Handled × Session :=
  let (v, s) := lunetPaxeFrameForUs s (.mem d.bytes)
  if v = .rc 1 then
    let (x, mem, s) := lunetPaxeOpen L s ⟨.mem d.bytes, d.mem⟩
    (⟨v, some (x, mem)⟩, s)
  else (⟨v, none⟩, s)

/-! ## The gate and the codec -/

theorem gateToId_of_parse {frame : Bytes} {h : Header} {f : Flags} (hp : parsePrefix frame = .ok (h, f)) :
    gateToId frame = h.toId := by
  obtain ⟨rest, rfl⟩ := parsePrefix_ok hp
  have hb : (serializePrefix h f).val ++ rest = (u16ToBeBytes h.fromId).val ++ ((u16ToBeBytes h.toId).val ++
      ((u32ToBeBytes h.channel).val ++ (f.toByte :: rest))) := by
    simp [serializePrefix, Header.toBytes]
  have hs : slice ((serializePrefix h f).val ++ rest) 2 4 = some (u16ToBeBytes h.toId).val := by
    rw [hb]
    exact slice_mid _ (u16ToBeBytes h.fromId).property (by rw [(u16ToBeBytes h.toId).property])
  rw [gateToId, hs, Option.bind_some, tryInto_val]
  exact u16FromBeBytes_toBeBytes h.toId

theorem parsePrefix_of_flags {frame : Bytes} {byte : UInt8} {f : Flags} (hl : prefixLen ≤ frame.length)
    (hb : frame[8]? = some byte) (hf : Flags.fromByte byte = .ok f) : ∃ h, parsePrefix frame = .ok (h, f) := by
  obtain ⟨x, rest, rfl⟩ := exists_split hl
  obtain ⟨f0, f1, t0, t1, c0, c1, c2, c3, b, rfl⟩ := fixed_nine x
  obtain rfl : b = byte := by simpa using hb
  exact ⟨_, by rw [parsePrefix_nine, hf]; rfl⟩

section
variable {store : KeyStore} {frame : Bytes}

theorem gated_of_drop (h : ¬ (prefixLen ≤ frame.length ∧ gateToId frame = store.localId)) :
    ∃ r e, Dek.Gate store frame r e := by
  have hno {h' : Header} {f : Flags} (hp : parsePrefix frame = .ok (h', f)) : h'.toId ≠ store.localId := by
    intro hto
    refine h ⟨?_, (gateToId_of_parse hp).trans hto⟩
    obtain ⟨rest, rfl⟩ := parsePrefix_ok hp
    simp [serializePrefix_length]
  rcases gate_or_attempt store frame with hg | ⟨_, _, _, _, _, a⟩ | ⟨_, _, _, _, _, _, _, _, a⟩
  · exact hg
  · exact absurd a.dest (hno a.parse)
  · exact absurd a.dest (hno a.parse)

theorem parsePrefix_not_short (hl : prefixLen ≤ frame.length) (n : Nat) :
    parsePrefix frame ≠ .error (.tooShort n) := by
  intro hp
  rcases parse_error hp with ⟨h, -⟩ | ⟨-, -, h⟩
  · exact absurd hl (Nat.not_le.mpr h)
  · cases h

theorem gate_after_pass (hl : prefixLen ≤ frame.length) (hto : gateToId frame = store.localId) {r : RejectReason}
    {e : Dek.OpenError} (g : Dek.Gate store frame r e) : r ≠ .plaintext ∧ ∀ n, e ≠ .badPrefix (.tooShort n) := by
  cases g with
  | @codec c hp =>
    refine ⟨?_, fun n h => ?_⟩
    · cases c <;> simp [RejectReason.fromCodec]
    · cases h
      exact parsePrefix_not_short hl n hp
  | standardDest hp _ hne => exact absurd ((gateToId_of_parse hp).symm.trans hto) hne
  | standardShort _ _ _ _ => exact ⟨nofun, nofun⟩
  | standardMiss _ _ _ _ _ =>
    refine ⟨?_, nofun⟩
    unfold missReason
    split <;> nofun
  | dekShort _ _ _ => exact ⟨nofun, nofun⟩
  | dekDest hp _ _ hne => exact absurd ((gateToId_of_parse hp).symm.trans hto) hne
  | dekMiss _ _ _ _ _ =>
    refine ⟨?_, nofun⟩
    unfold missReason
    split <;> nofun

end

/-! ## The counters of the receive side -/

namespace Stats

def rx (st : Stats) : Option RejectReason → Nat
  | none => st.rxOk
  | some r => st.reject r

/-- One frame was counted, under this counter. -/
structure Counted (st st' : Stats) (c : Option RejectReason) : Prop where
  total : st'.rxTotal = saturatingAdd st.rxTotal 1
  one : st'.rx c = saturatingAdd (st.rx c) 1
  others : ∀ x, x ≠ c → st'.rx x = st.rx x

theorem counted_bumpOk (st : Stats) : Counted st st.bumpOk none where
  total := rfl
  one := rfl
  others x hx := by
    cases x with
    | none => exact absurd rfl hx
    | some r => rfl

theorem counted_bumpDrop (st : Stats) (r : RejectReason) : Counted st (st.bumpDrop r) (some r) where
  total := rfl
  one := by simp [rx, reject_bumpDrop]
  others x hx := by
    cases x with
    | none => rfl
    | some y =>
      have hy : y ≠ r := fun h => hx (h ▸ rfl)
      simp [rx, reject_bumpDrop, hy]

end Stats

/-! ## One datagram -/

theorem receive_pass (L : Libsodium) {s s' : Session} {d : Datagram}
    (h : lunetPaxeFrameForUs s (.mem d.bytes) = (.rc 1, s')) :
    s.receive L d = (⟨.rc 1, some ((lunetPaxeOpen L s' ⟨.mem d.bytes, d.mem⟩).1,
      (lunetPaxeOpen L s' ⟨.mem d.bytes, d.mem⟩).2.1)⟩, (lunetPaxeOpen L s' ⟨.mem d.bytes, d.mem⟩).2.2) := by
  simp only [Session.receive, h, if_true]

theorem receive_drop (L : Libsodium) {s s' : Session} {d : Datagram}
    (h : lunetPaxeFrameForUs s (.mem d.bytes) = (.rc 0, s')) : s.receive L d = (⟨.rc 0, none⟩, s') := by
  simp only [Session.receive, h]
  exact if_neg (by decide)

section
variable {L : Libsodium} (hL : L.Contract) {s : Session} {store : KeyStore} (hs : s.store = some store)
include hL hs

theorem open_counts {frame : Bytes} {m : OpenOut} (hm : m.Ready frame.length) :
    let r := Dek.open L store frame s.diag s.trace
    let s' := (lunetPaxeOpen L s ⟨.mem frame, m⟩).2.2
    s'.store = some store ∧
      (((∃ x, r.result = .ok x) ∧ s'.diag.stats = s.diag.stats.bumpOk) ∨
        ∃ e y, (Dek.Gate store frame y e ∨ y = .authFailed ∧ (e = .standardRejected ∨ e = .authFailed)) ∧
          r.result = .err e ∧ s'.diag.stats = s.diag.stats.bumpDrop y) := by
  obtain ⟨hp, buf, hb, hroom⟩ := hm
  have hv : OpenCall.Valid ⟨.mem frame, m⟩ frame buf := ⟨rfl, hb, hp⟩
  have hd := open_did L s ⟨.mem frame, m⟩
  intro r s'
  simp only [s', r]
  generalize lunetPaxeOpen L s ⟨.mem frame, m⟩ = w at hd
  have hany := open_any L store frame s.diag s.trace
  cases hd with
  | refused _ hno => exact absurd hv (hno _ _)
  | unconfigured h0 => rw [hs] at h0; cases h0
  | @short store' frame' out _ _ _ _ _ _ hs' hv' ho hlt =>
    obtain rfl : store = store' := Option.some.inj (hs.symm.trans hs')
    obtain rfl : frame = frame' := Except.ok.inj hv'.frame_eq
    obtain rfl : buf = out := Except.ok.inj (hb.symm.trans hv'.out_eq)
    rw [ho] at hany
    rcases hany with ⟨_, _, _, hx, hle⟩ | ⟨_, hx⟩
    · cases hx
      omega
    · cases hx
  | @accepted store' frame' out h f p d t hs' hv' ho _ =>
    obtain rfl : store = store' := Option.some.inj (hs.symm.trans hs')
    obtain rfl : frame = frame' := Except.ok.inj hv'.frame_eq
    obtain rfl := open_ok_diag hL ho
    rw [ho]
    exact ⟨hs, Or.inl ⟨⟨_, rfl⟩, rfl⟩⟩
  | broken _ _ ho => exact absurd ho (open_not_sodium hL)
  | @dropped store' frame' out e d t hs' hv' ho _ =>
    obtain rfl : store = store' := Option.some.inj (hs.symm.trans hs')
    obtain rfl : frame = frame' := Except.ok.inj hv'.frame_eq
    obtain ⟨y, hg, rfl⟩ := open_err_diag hL ho
    rw [ho]
    exact ⟨hs, Or.inr ⟨e, y, hg, rfl, recordRxDrop_recordReject s.diag y⟩⟩

theorem receive_did (d : Datagram) :
    let v := (s.receive L d).1.verdict
    let st' := (s.receive L d).2.diag.stats
    let r := Dek.open L store d.bytes s.diag s.trace
    (s.receive L d).2.store = some store ∧
      ((v = .rc 0 ∧ ¬ (prefixLen ≤ d.bytes.length ∧ gateToId d.bytes = store.localId) ∧ (∃ e, r.result = .err e) ∧
          s.diag.stats.Counted st' (some .plaintext)) ∨
        (v = .rc 1 ∧ (prefixLen ≤ d.bytes.length ∧ gateToId d.bytes = store.localId) ∧
          (∀ n, r.result ≠ .err (.badPrefix (.tooShort n))) ∧
          ∃ c, c ≠ some .plaintext ∧ s.diag.stats.Counted st' c)) := by
  have hg := gate_did s (.mem d.bytes)
  generalize hw : lunetPaxeFrameForUs s (.mem d.bytes) = w at hg
  intro v st' r
  simp only [v, st', r]
  cases hg with
  | refused m hno => exact absurd rfl (hno _)
  | unconfigured h0 => rw [hs] at h0; cases h0
  | @pass store' frame hs' hf hl hto =>
    obtain rfl : store = store' := Option.some.inj (hs.symm.trans hs')
    obtain rfl : d.bytes = frame := Except.ok.inj hf
    obtain ⟨hstore, hc⟩ := open_counts hL hs d.ready
    rw [receive_pass L hw]
    refine ⟨hstore, Or.inr ⟨rfl, ⟨hl, hto⟩, ?_⟩⟩
    rcases hc with ⟨⟨x, hx⟩, hst⟩ | ⟨e, y, hy, hx, hst⟩
    · rw [hst, hx]
      exact ⟨nofun, none, nofun, Stats.counted_bumpOk _⟩
    · have hne : y ≠ .plaintext ∧ ∀ n, e ≠ .badPrefix (.tooShort n) := by
        rcases hy with g | ⟨rfl, rfl | rfl⟩
        · exact gate_after_pass hl hto g
        · exact ⟨nofun, nofun⟩
        · exact ⟨nofun, nofun⟩
      rw [hst, hx]
      exact ⟨fun n h => hne.2 n (Res.err.inj h), some y, fun h => hne.1 (Option.some.inj h),
        Stats.counted_bumpDrop _ y⟩
  | @drop store' frame hs' hf hno =>
    obtain rfl : store = store' := Option.some.inj (hs.symm.trans hs')
    obtain rfl : d.bytes = frame := Except.ok.inj hf
    obtain ⟨r, e, g⟩ := gated_of_drop hno
    rw [receive_drop L hw]
    refine ⟨hs, Or.inl ⟨rfl, hno, ⟨e, ?_⟩, ?_⟩⟩
    · rw [open_gate L s.diag s.trace g]
    · dsimp only
      rw [recordReject_recordRxDrop]
      exact Stats.counted_bumpDrop _ _

theorem receive_total (d : Datagram) :
    (s.receive L d).2.diag.stats.rxTotal = saturatingAdd s.diag.stats.rxTotal 1 := by
  obtain ⟨-, ⟨-, -, -, hc⟩ | ⟨-, -, -, _, -, hc⟩⟩ := receive_did hL hs d
  · exact hc.total
  · exact hc.total

theorem run_store (ds : List Datagram) : (Mealy.run (Session.receive L) s ds).store = some store :=
  Mealy.run_inv (Session.receive L) (I := fun t => t.store = some store) hs
    (fun _ d ht => (receive_did hL ht d).1) ds

theorem run_total (hc : s.diag.stats.rxTotal ≤ u64Max) (ds : List Datagram) :
    (Mealy.run (Session.receive L) s ds).diag.stats.rxTotal = min (s.diag.stats.rxTotal + ds.length) u64Max := by
  induction ds generalizing s with
  | nil => simp [Mealy.run, hc]
  | cons d ds ih =>
    have ht := receive_total hL hs d
    rw [Mealy.run, ih (receive_did hL hs d).1 (ht ▸ saturatingAdd_le _), ht, saturatingAdd, List.length_cons]
    omega

theorem run_saturated (hc : s.diag.stats.rxTotal ≤ u64Max) {ds : List Datagram} (hn : u64Max ≤ ds.length)
    (d : Datagram) :
    ((Mealy.run (Session.receive L) s ds).receive L d).2.diag.stats.rxTotal ≠
      (Mealy.run (Session.receive L) s ds).diag.stats.rxTotal + 1 := by
  rw [receive_total hL (run_store hL hs ds), run_total hL hs hc, saturatingAdd]
  omega

end

/-- Across the two stages each datagram is counted once. The gate turns away
nothing that would open, a 0 is a `rx_plaintext`, and after a 1 neither that
counter moves nor is the prefix found too short. Where the codec reads the
flags, the two read one `toId`. -/
theorem pipeline_accounts {L : Libsodium} (hL : L.Contract) {s : Session} {store : KeyStore}
    (hs : s.store = some store) (ds : List Datagram) (d : Datagram) :
    let t := Mealy.run (Session.receive L) s ds
    let v := (t.receive L d).1.verdict
    let st := t.diag.stats
    let st' := (t.receive L d).2.diag.stats
    let r := Dek.open L store d.bytes t.diag t.trace
    t.store = some store ∧ (v = .rc 0 ∨ v = .rc 1) ∧
    (v = .rc 1 ↔ prefixLen ≤ d.bytes.length ∧ gateToId d.bytes = store.localId) ∧
    (v = .rc 0 → ∃ e, r.result = .err e) ∧
    (∃ c, st.Counted st' c ∧ (c = some .plaintext ↔ v = .rc 0) ∧
      (st.rxTotal < u64Max → st'.rxTotal = st.rxTotal + 1) ∧ (st.rx c < u64Max → st'.rx c = st.rx c + 1)) ∧
    (v = .rc 1 → ∀ n, r.result ≠ .err (.badPrefix (.tooShort n))) ∧
    ∀ byte f, prefixLen ≤ d.bytes.length → d.bytes[8]? = some byte → Flags.fromByte byte = .ok f →
      ∃ h, parsePrefix d.bytes = .ok (h, f) ∧ gateToId d.bytes = h.toId := by
  intro t v st st' r
  have ht : t.store = some store := run_store hL hs ds
  have hparse : ∀ byte f, prefixLen ≤ d.bytes.length → d.bytes[8]? = some byte → Flags.fromByte byte = .ok f →
      ∃ h, parsePrefix d.bytes = .ok (h, f) ∧ gateToId d.bytes = h.toId := by
    intro byte f hl hb hf
    obtain ⟨h, hp⟩ := parsePrefix_of_flags hl hb hf
    exact ⟨h, hp, gateToId_of_parse hp⟩
  have hexact {c : Option RejectReason} (hc : st.Counted st' c) :
      (st.rxTotal < u64Max → st'.rxTotal = st.rxTotal + 1) ∧ (st.rx c < u64Max → st'.rx c = st.rx c + 1) :=
    ⟨fun h => hc.total.trans (saturatingAdd_one h), fun h => hc.one.trans (saturatingAdd_one h)⟩
  obtain ⟨-, ⟨hv, hno, herr, hc⟩ | ⟨hv, hfor, hshort, c, hne, hc⟩⟩ := receive_did hL ht d
  · have hv : v = .rc 0 := hv
    have h01 : v ≠ .rc 1 := by rw [hv]; decide
    exact ⟨ht, Or.inl hv, iff_of_false h01 hno, fun _ => herr, ⟨_, hc, iff_of_true rfl hv, hexact hc⟩,
      fun h => absurd h h01, hparse⟩
  · have hv : v = .rc 1 := hv
    have h10 : v ≠ .rc 0 := by rw [hv]; decide
    exact ⟨ht, Or.inr hv, iff_of_true hv hfor, fun h => absurd h h10, ⟨c, hc, iff_of_false hne h10, hexact hc⟩,
      fun _ => hshort, hparse⟩

theorem pipeline_accounts_unkeyed :
    let s := (lunetPaxeSetLocalId Session.start 2 0).2
    let m : OpenOut := ⟨.mem (List.replicate 40 0), some 0, some 0, some 0, some 0⟩
    let d₁ : Datagram := ⟨[1], m, ⟨rfl, _, rfl, by decide⟩⟩
    let d₂ : Datagram := ⟨[0, 1, 0, 2, 0, 0, 0, 0, 4] ++ List.replicate 28 0, m, ⟨rfl, _, rfl, by decide⟩⟩
    let t := Mealy.run (Session.receive (aesGcm counterBytes)) s [d₁]
    t.diag.stats.reject .plaintext = 1 ∧ ∃ c, c ≠ some .plaintext ∧
      t.diag.stats.Counted (t.receive (aesGcm counterBytes) d₂).2.diag.stats c := by
  intro s m d₁ d₂ t
  have hp : t.diag.stats.reject .plaintext = 1 := by decide +kernel
  obtain ⟨-, -, -, -, ⟨c, hc, hv, -⟩, -, -⟩ := pipeline_accounts (aesGcm_contract counterBytes) (s := s) rfl [d₁] d₂
  exact ⟨hp, c, fun h => absurd (hv.mp h) (by decide +kernel), hc⟩

/-- The counters saturate: after `u64::MAX` datagrams one more does not move
`rx_total`. -/
theorem pipeline_saturates :
    let L := aesGcm counterBytes
    let s := (lunetPaxeSetLocalId Session.start 2 0).2
    let d : Datagram := ⟨[], ⟨.mem [], some 0, some 0, some 0, some 0⟩, ⟨rfl, [], rfl, Nat.le_refl _⟩⟩
    let ds := List.replicate u64Max d
    s.store.isSome ∧ ((Mealy.run (Session.receive L) s ds).receive L d).2.diag.stats.rxTotal ≠
      (Mealy.run (Session.receive L) s ds).diag.stats.rxTotal + 1 := by
  intro L s d ds
  have hL : L.Contract := aesGcm_contract counterBytes
  obtain ⟨store, hs⟩ : ∃ store, s.store = some store := ⟨_, rfl⟩
  have hz : s.diag.stats.rxTotal ≤ u64Max := Nat.zero_le _
  have hn : u64Max ≤ ds.length := Nat.le_of_eq List.length_replicate.symm
  exact ⟨Option.isSome_of_eq_some hs, run_saturated hL hs hz hn d⟩

end Paxe
