/-
# The saved configuration of access lists and devices

The file gives the access lists and the devices back exactly where every text in them is one
part for the splitter, as it is written: a pattern without quotes, most texts of a device with
single quotes and no escapes.  A pattern with a blank and a text with a quote are entered with
other quotes, and the file that is saved then cannot be read.
-/
import Tacppd.AccessConfig
import Tacppd.DeviceReplay

namespace Tacppd

/-- **The saved configuration, exactly.** -/
theorem configReadsBack_iff [LongWidth] (env : AcctEnv) (ld : DLoad) (c : CoreAccess)
    (nas : List DeviceConf) (hint : ∀ a ∈ c.acl, IntNumber a.number) :
    (AccessReadsBack c ↔ c.Sound ∧ ∀ a ∈ c.acl, 0 ≤ a.number ∧
      ∀ e ∈ a.acl, PatternOk e.rule.pattern) ∧
    (DevicesReadBack env ld nas ↔ (nas.map DeviceConf.ipa).Nodup ∧
      ∀ d ∈ nas, d.Storable env ld) :=
  ⟨accessReadsBack_iff hint, devicesReadBack_iff⟩

/-- Access list 1 with a pattern that is permitted. -/
def onePattern (p : Bytes) : CoreAccess := (CoreAccess.addPermit 1 p ⟨[]⟩).2

theorem sound_onePattern (p : Bytes) : (onePattern p).Sound := by
  obtain ⟨_, -, hstands⟩ := access_step ⟨CoreAccess.sound_init, rfl⟩ (.addPermit 1 p) rfl
  exact hstands.sound

/-- Every module can be loaded. -/
def freeLoad : DLoad := ⟨fun _ => [], fun _ _ => true⟩

/-- A device with a description. -/
def describedDevice (s : Bytes) : DeviceConf :=
  { DeviceConf.new (IpAddr.make numericEnv (str "10.0.0.1")) with descr := s }

theorem configReadsBack_one : AccessReadsBack (onePattern (str "^192")) ∧
    DevicesReadBack numericEnv freeLoad [describedDevice (str "core")] := by
  have hacl : onePattern (str "^192") = ⟨[⟨1, [.new (str "^192") .permit]⟩]⟩ := by decide +kernel
  have hback := configReadsBack_iff numericEnv freeLoad (onePattern (str "^192"))
    [describedDevice (str "core")] (by rw [hacl]; simp [IntNumber])
  constructor
  · refine hback.1.mpr ⟨sound_onePattern _, ?_⟩
    rw [hacl]
    simp only [List.mem_singleton, forall_eq]
    exact ⟨by decide, ⟨by decide +kernel, by decide +kernel, by decide +kernel, by decide +kernel⟩⟩
  · refine hback.2.mpr ⟨List.nodup_singleton _, ?_⟩
    simp only [List.mem_singleton, forall_eq]
    exact {
      word := by decide +kernel
      line := by decide +kernel
      isIp := by decide +kernel
      addr := by decide +kernel
      descr := ⟨by decide +kernel, by decide +kernel, by decide +kernel, by decide +kernel⟩
      tacKey := ⟨by decide +kernel, by decide +kernel, by decide +kernel, by decide +kernel⟩
      community := ⟨by decide +kernel, by decide +kernel, by decide +kernel, by decide +kernel⟩
      loginstring := ⟨by decide +kernel, by decide +kernel, by decide +kernel, by decide +kernel⟩
      pwdstring := ⟨by decide +kernel, by decide +kernel, by decide +kernel, by decide +kernel⟩
      module_ := ⟨by decide +kernel, by decide +kernel, by decide +kernel, by decide +kernel⟩
      loads := .inr rfl
      delay := by decide }

/-- A pattern with a blank and a description with a quote: the file cannot be read. -/
theorem config_lost : accessSection.replay (onePattern (str "a b")).configText ⟨[]⟩ = none ∧
    (deviceSection numericEnv freeLoad).replay (deviceText [describedDevice (str "it's")]) [] =
      none ∧
    ¬ AccessReadsBack (onePattern (str "a b")) ∧
    ¬ DevicesReadBack numericEnv freeLoad [describedDevice (str "it's")] := by
  have hacl : accessSection.replay (onePattern (str "a b")).configText ⟨[]⟩ = none := by
    decide +kernel
  have hnas : (deviceSection numericEnv freeLoad).replay
      (deviceText [describedDevice (str "it's")]) [] = none :=
    Option.isNone_iff_eq_none.mp (by decide +kernel)
  refine ⟨hacl, hnas, ?_, ?_⟩
  · unfold AccessReadsBack
    rw [hacl]
    exact (Option.some_ne_none _).symm
  · unfold DevicesReadBack
    rw [hnas]
    exact (Option.some_ne_none _).symm

end Tacppd
