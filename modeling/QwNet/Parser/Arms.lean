/-
  QwNet.Parser.Arms

  The arms of the switch that are checked code, and what more fuel does to them.

  Left for the modules that need them are `svc_updateentertime` and the end of
  `svc_serverdata`, which read floats, `svc_download`, which moves the cursor by a
  number from the message, and `svc_packetentities`, whose flush may not end.
-/
import QwNet.Parser.Checked

namespace QwNet

open RunM

/-- Two pieces of checked code in a row. -/
theorem Checked.seq {msg : Message} {fuel : Nat} {α β : Type} {m : Parser α} {m' : Parser β}
    (h : Checked msg fuel m) (h' : Checked msg fuel m') :
    Checked msg fuel (m >>= fun _ => m') := h.bind fun _ => h'

/-! ## Changes of the connection that parsing does not notice -/

theorem quiet_qwcStringAdd (env : Env) (string : List Byte) (q : QwConnection) :
    Quiet q (qwcStringAdd env string q) := by
  unfold qwcStringAdd
  split
  · exact .refl q
  · split
    · exact .of_eq rfl rfl
    · split
      · exact .of_eq rfl rfl
      · exact .of_eq rfl rfl

theorem quiet_endLine (env : Env) (q : QwConnection) : Quiet q (endLine env q) := by
  have hclear : ∀ q, Quiet q (clearLine q) := fun q => .of_eq rfl rfl
  unfold endLine
  exact (quiet_qwcStringAdd env (cstring q.buffer.mem 2048 0) q).trans (hclear _)

theorem quiet_printString (s : List Byte) (q : QwConnection) : Quiet q (printString s q) :=
  .of_eq rfl rfl

theorem quiet_endLineIf (env : Env) (s : List Byte) (q : QwConnection) :
    Quiet q (endLineIf env s q) := by
  unfold endLineIf
  split
  · exact quiet_endLine env q
  · exact .refl q

theorem quiet_fclose (q : QwConnection) : Quiet q (fcloseDownload q) :=
  .log q (by simp [Event.quiet])

theorem quiet_fopen (env : Env) (name : List Byte) (q : QwConnection) :
    Quiet q (fopenDownload env name q) where
  control := rfl
  events := ⟨[.fopen name _], rfl, by simp [Event.quiet]⟩

theorem quiet_giveUpDownload (size : BitVec 32) (q : QwConnection) :
    Quiet q (giveUpDownload size q) := by
  unfold giveUpDownload
  split
  · exact (quiet_fclose q).trans (.of_eq rfl rfl)
  · exact .refl q

theorem quiet_sayPercent (percent : BitVec 32) (q : QwConnection) :
    Quiet q (sayPercent percent q) := by
  unfold sayPercent
  split
  · have hlp : Quiet q { q with lp := percent } := .of_eq rfl rfl
    exact hlp.trans (.append _ _)
  · exact .refl q

/-! ## The arms -/

section Arms

variable (msg : Message) (env : Env) (fuel : Nat)

theorem checked_setAbort : Checked msg fuel setAbort := by
  refine .modify (fun q => ?_) fun _ _ h => h
  exact ⟨Nat.le_refl _, id, fun h => ⟨Nat.le_refl _, h⟩,
    ⟨[.abort], rfl, by simp [Event.ofLoop], by simp [Event.InBounds]⟩⟩

theorem checked_appendText (text : QwConnection → List Byte) :
    Checked msg fuel (appendText text) := .quiet fun q => .append _ q

theorem checked_parsePrint (s : List Byte) : Checked msg fuel (parsePrint env s) :=
  .seq (.quiet (quiet_printString s)) (.seq (.quiet fun q =>
    .log q (by simp [Event.quiet])) (.quiet (quiet_endLineIf env s)))

theorem checked_parsePlayerinfo : Checked msg fuel (parsePlayerinfo msg) := by
  have hbyte := checked_msgReadByte msg fuel
  have hcoord := checked_msgReadCoord msg fuel
  refine .seq hbyte (.bind (checked_msgReadShort msg fuel) fun flags => ?_)
  have hbytes := fun flag => checked_readIf msg fuel flags flag hbyte
  have hshorts := fun flag => checked_readIf msg fuel flags flag (checked_msgReadShort msg fuel)
  refine .seq hcoord (.seq hcoord (.seq hcoord (.seq hbyte (.seq (hbytes _) (.seq ?_ ?_)))))
  · exact .ite (checked_msgReadDeltaUsercmd msg fuel) (.pure _)
  · exact .seq (hshorts _) (.seq (hshorts _) (.seq (hshorts _) (.seq (hbytes _) (.seq (hbytes _)
      (.seq (hbytes _) (hbytes _))))))

theorem checked_parseLightstyles : Checked msg fuel (parseLightstyles msg) :=
  .seq (checked_msgReadByte msg fuel) (.seq (checked_msgReadString msg fuel) (.pure _))

theorem checked_parseBaseLine : Checked msg fuel (parseBaseLine msg) := by
  have hbyte := checked_msgReadByte msg fuel
  have hcoord := checked_msgReadCoord msg fuel
  have hangle := checked_msgReadAngle msg fuel
  exact .seq (checked_msgReadShort msg fuel) (.seq hbyte (.seq hbyte (.seq hbyte (.seq hbyte
    (.seq hcoord (.seq hangle (.seq hcoord (.seq hangle (.seq hcoord (.seq hangle (.pure _)))))))))))

theorem checked_parseSpawnStaticSound : Checked msg fuel (parseSpawnStaticSound msg) := by
  have hbyte := checked_msgReadByte msg fuel
  have hcoord := checked_msgReadCoord msg fuel
  exact .seq hcoord (.seq hcoord (.seq hcoord (.seq hbyte (.seq hbyte (.seq hbyte (.pure _))))))

/-- A string that is not empty has brought the end nearer. -/
theorem left_lt_of_msgReadString {q q' : QwConnection} {string : List Byte}
    (h : msgReadString msg q = (some string, q')) (hne : string ≠ []) :
    msg.left q'.msgReadcount < msg.left q.msgReadcount := by
  obtain ⟨string', q₁, hloop, hrest⟩ := bind_eq_some h
  obtain ⟨_, q₂, hstore, hpure⟩ := bind_eq_some hrest
  obtain ⟨hstring, rfl⟩ := Prod.mk.inj hpure
  obtain ⟨-, rfl⟩ := Prod.mk.inj hstore
  obtain ⟨c, q₃, hbyte, hloop'⟩ := bind_eq_some hloop
  by_cases hc : c = -1#32 ∨ c = 0#32
  · rw [if_pos hc] at hloop'
    have := Option.some.inj (Prod.mk.inj hloop').1
    exact absurd ((Option.some.inj hstring).symm.trans this.symm) hne
  · rw [if_neg hc] at hloop'
    have hadv := (checked_msgReadStringLoop msg 0 2046 ([] ++ [c.setWidth 8])).advances q₃
    rw [hloop'] at hadv
    have hlt := left_lt_of_msgRead (by omega) (by omega) hbyte fun h => hc (.inl h)
    exact Nat.lt_of_le_of_lt hadv.left_le hlt

theorem checked_readNames : Checked msg fuel (readNames msg fuel) := by
  refine .loop (fun fuel => .bind (checked_msgReadString msg fuel) fun str =>
    .ite (.pure _) (.pure _)) fun q q' h => ?_
  obtain ⟨str, q₁, hstr, hrest⟩ := bind_eq_some h
  by_cases hempty : str = []
  · rw [if_pos hempty] at hrest
    exact nomatch (Prod.mk.inj hrest).1
  · rw [if_neg hempty] at hrest
    obtain ⟨-, rfl⟩ := Prod.mk.inj hrest
    exact left_lt_of_msgReadString msg hstr hempty

theorem checked_parseList (again : BitVec 32 → QwConnection → List Byte)
    (next : QwConnection → List Byte) : Checked msg fuel (parseList msg fuel again next) :=
  .seq (checked_msgReadByte msg fuel) (.seq (checked_readNames msg fuel)
    (.bind (checked_msgReadByte msg fuel) fun _ =>
      .ite (checked_appendText msg fuel _) (checked_appendText msg fuel _)))

theorem checked_parseSoundList : Checked msg fuel (parseSoundList msg fuel) :=
  checked_parseList msg fuel _ _

theorem checked_parseModelList : Checked msg fuel (parseModelList msg fuel) :=
  checked_parseList msg fuel _ _

theorem checked_parseDelta (word : BitVec 32) : Checked msg fuel (parseDelta msg word) := by
  have hbyte := checked_msgReadByte msg fuel
  have hangle := checked_msgReadAngle msg fuel
  have hcoord := checked_msgReadCoord msg fuel
  refine .bind (.ite (.bind hbyte fun i => .pure _) (.pure _)) fun bits => ?_
  have hif := fun flag (read : Parser (BitVec 32)) => @checked_readIf msg fuel bits flag read
  exact .seq (hif _ _ hbyte) (.seq (hif _ _ hbyte) (.seq (hif _ _ hbyte) (.seq (hif _ _ hbyte)
    (.seq (hif _ _ hbyte) (.seq (hif _ _ hcoord) (.seq (hif _ _ hangle) (.seq (hif _ _ hcoord)
      (.seq (hif _ _ hangle) (.seq (hif _ _ hcoord) (hif _ _ hangle))))))))))

theorem checked_msgReadWord : Checked msg fuel (msgReadWord msg) :=
  .bind (checked_msgReadShort msg fuel) fun _ => .pure _

theorem checked_flushPass : Checked msg fuel (flushPass msg) :=
  .bind (checked_msgReadWord msg fuel) fun _ =>
    .ite (.pure _) (.seq (checked_parseDelta msg fuel _) (.pure _))

theorem checked_readCoords : Checked msg fuel (readCoords msg) := by
  have hcoord := checked_msgReadCoord msg fuel
  exact .seq hcoord (.seq hcoord (.seq hcoord (.pure _)))

theorem checked_parseBeam : Checked msg fuel (parseBeam msg) := by
  have hcoord := checked_msgReadCoord msg fuel
  exact .seq (checked_msgReadShort msg fuel) (.seq hcoord (.seq hcoord (.seq hcoord (.seq hcoord
    (.seq hcoord (.seq hcoord (.pure _)))))))

theorem checked_parseTempEntity : Checked msg fuel (parseTempEntity msg) := by
  refine .bind (checked_msgReadByte msg fuel) fun type => ?_
  split
  all_goals first
    | exact checked_readCoords msg fuel
    | exact checked_parseBeam msg fuel
    | exact .seq (checked_msgReadByte msg fuel) (checked_readCoords msg fuel)
    | exact checked_setAbort msg fuel

theorem checked_parseSoundPacket : Checked msg fuel (parseSoundPacket msg) := by
  have hbyte := checked_msgReadByte msg fuel
  have hcoord := checked_msgReadCoord msg fuel
  exact .bind (checked_msgReadShort msg fuel) fun channel =>
    .seq (checked_readIf msg fuel _ _ hbyte) (.seq (checked_readIf msg fuel _ _ hbyte)
      (.seq hbyte (.seq hcoord (.seq hcoord (.seq hcoord (.pure _))))))

theorem checked_stufftext (s : List Byte) : Checked msg fuel (stufftext env s) := by
  have htext := checked_appendText msg fuel
  refine .seq (.ite (htext _) (.pure _)) (.seq (.ite (htext _) (.pure _)) (.ite ?_ (.pure _)))
  refine .seq (.quiet fun q => ?_) (.seq (.quiet fun q => quiet_fopen env _ q) (htext _))
  split
  · exact quiet_fclose q
  · exact .refl q

/-- The protocol version may be changed. -/
theorem checked_setProtoversion (v : BitVec 32) :
    Checked msg fuel (RunM.modify (QwConnection.setProtoversion v)) := by
  refine .modify (fun q => ?_) fun q q' h => ?_
  · exact ⟨Nat.le_refl _, id, fun h => ⟨Nat.le_refl _, h⟩,
      ⟨[], (List.append_nil _).symm, by simp, by simp⟩⟩
  · obtain ⟨hrc, hbad, -⟩ := control_eq_iff.mp h
    exact control_eq_iff.mpr ⟨hrc, hbad, rfl⟩

theorem checked_readProtoversion : Checked msg fuel (readProtoversion msg fuel) := by
  refine .loop (fun fuel => .bind (checked_msgReadLong msg fuel) fun protoversion =>
    .seq (checked_setProtoversion msg fuel _) (.ite (.seq (checked_msgReadLong msg fuel) (.pure _)) (.pure _)))
    fun q q' h => ?_
  obtain ⟨protoversion, q₁, hlong, hrest⟩ := bind_eq_some h
  obtain ⟨_, q₂, hset, hif⟩ := bind_eq_some hrest
  obtain ⟨-, rfl⟩ := Prod.mk.inj hset
  by_cases hftex : protoversion = 0x58455446#32
  · -- the extension was read, so four bytes are gone
    rw [if_pos hftex] at hif
    have hlt := left_lt_of_msgRead (by omega) (by omega) hlong (by rw [hftex]; decide)
    have hadv := (Checked.seq (checked_msgReadLong msg 0) (.pure (none : Option Unit))).advances
      (q₁.setProtoversion protoversion)
    rw [hif] at hadv
    exact Nat.lt_of_le_of_lt hadv.left_le hlt
  · rw [if_neg hftex] at hif
    exact nomatch (Prod.mk.inj hif).1

theorem checked_serverdataHeader : Checked msg fuel (serverdataHeader msg fuel) := by
  have hstring := checked_msgReadString msg fuel
  exact .seq (checked_readProtoversion msg fuel) (.bind (checked_msgReadLong msg fuel) fun _ =>
    .seq (.quiet fun _ => .of_eq rfl rfl) (.seq hstring (.seq (checked_msgReadByte msg fuel)
      (.seq hstring (.quiet fun q => .log q (by simp [Event.quiet]))))))

end Arms

end QwNet
