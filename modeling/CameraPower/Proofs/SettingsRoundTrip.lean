import CameraPower.Controller
import CameraPower.Proofs.PromptReply

/-!
# Settings through the whole stack

A caller sets and reads settings of a controller that answers at once.  Every call goes through the
engine, the line, the controller and the receiver, and each setting comes back as it was last set.

* `Setting`                the settings that can be set and read, with their queries;
* `SettingCall`            a call that sets or reads one;
* `Setting.Holds`          what the controller has;
* `answer_setter`, `answer_getter`, `holds_put`, `read_reported`  what a call makes of it;
* `Ready.make`             one call over a link, `Ready.makeAll` any number;
* `settings_round_trip`    what each call comes to.
-/

namespace CameraPower

/-! ## settings -/

inductive Setting where
  | powerup
  | fan
  | shipping
  /-- whether the bootloader is running; the controller jumps to it, or to the application -/
  | bootloader
  deriving DecidableEq, Repr

namespace Setting

@[reducible] def Value : Setting → Type
  | .powerup => PowerupMode
  | .fan => FanOverride
  | .shipping => Bool
  | .bootloader => Bool

def setter : (setting : Setting) → setting.Value → Query Unit
  | .powerup, mode => Controller.setPowerupMode mode
  | .fan, choice => Controller.setFanOverride choice
  | .shipping, enabled => Controller.setShippingMode enabled
  | .bootloader, true => Controller.jumpToBootloader
  | .bootloader, false => Controller.jumpToProgram

def getter : (setting : Setting) → Query setting.Value
  | .powerup => Controller.powerupMode
  | .fan => Controller.fanOverride
  | .shipping => Controller.shippingMode
  | .bootloader => Controller.isInBootloader

variable {setting other : Setting} {settings : Device.Settings}

/-- the value that a controller has; its power-up mode must be one -/
def held (settings : Device.Settings) (hmode : settings.powerupMode < 4) :
    (setting : Setting) → setting.Value
  | .powerup => ⟨settings.powerupMode, hmode⟩
  | .fan => .ofPayload settings.fanEnable settings.fanSpeed
  | .shipping => settings.shipping != 0
  | .bootloader => settings.inBootloader

def Holds (settings : Device.Settings) (setting : Setting) (value : setting.Value) : Prop :=
  ∃ hmode, setting.held settings hmode = value

/-! ## what the controller makes of a call -/

/-- the controller when a setting has been set -/
def put (settings : Device.Settings) : (setting : Setting) → setting.Value → Device.Settings
  | .powerup, mode => { settings with powerupMode := mode.bits }
  | .fan, choice =>
    { settings with fanEnable := choice.payload.getD 0 0, fanSpeed := choice.payload.getD 1 0 }
  | .shipping, enabled => { settings with shipping := if enabled then 1 else 0 }
  | .bootloader, running => { settings with inBootloader := running }

/-- what the controller reports of a setting -/
def reported (settings : Device.Settings) : Setting → List UInt8
  | .powerup => [settings.powerupMode]
  | .fan => [settings.fanEnable, settings.fanSpeed]
  | .shipping => [settings.shipping]
  | .bootloader => [if settings.inBootloader then 1 else 0]

theorem answer_setter (settings : Device.Settings) (setting : Setting) (value : setting.Value) :
    settings.answer (setting.setter value).request.command (setting.setter value).request.payload =
      (setting.put settings value, some []) := by
  cases setting with
  | powerup => rfl
  | fan => rfl
  | shipping => rfl
  | bootloader => cases value <;> rfl

theorem answer_getter (settings : Device.Settings) (setting : Setting) :
    settings.answer setting.getter.request.command setting.getter.request.payload =
      (settings, some (setting.reported settings)) := by
  cases setting <;> rfl

theorem length_setter (setting : Setting) (value : setting.Value) :
    (setting.setter value).request.payload.length ≤ 2 := by
  cases setting with
  | powerup => exact Nat.le_of_ble_eq_true rfl
  | fan => cases value <;> exact Nat.le_refl 2
  | shipping => exact Nat.le_of_ble_eq_true rfl
  | bootloader => cases value <;> exact Nat.zero_le 2

theorem length_getter (setting : Setting) : setting.getter.request.payload.length ≤ 2 := by
  cases setting <;> exact Nat.zero_le 2

theorem length_reported (settings : Device.Settings) (setting : Setting) :
    (setting.reported settings).length ≤ 2 := by
  cases setting <;> exact Nat.le_of_ble_eq_true rfl

theorem read_done (setting : Setting) (value : setting.Value) :
    (setting.setter value).read [] = .ok () := by
  cases setting with
  | powerup => rfl
  | fan => rfl
  | shipping => rfl
  | bootloader => cases value <;> rfl

/-- what is reported is read as what the controller has -/
theorem Holds.read_reported {value : setting.Value} (h : setting.Holds settings value) :
    setting.getter.read (setting.reported settings) = .ok value := by
  obtain ⟨hmode, rfl⟩ := h
  cases setting with
  | powerup =>
    have hread : PowerupMode.ofBits? settings.powerupMode = some ⟨settings.powerupMode, hmode⟩ :=
      dif_pos hmode
    simp [getter, Controller.powerupMode, Query.ask, reported, hread, held]
  | fan => rfl
  | shipping => rfl
  | bootloader =>
    show Except.ok ((if settings.inBootloader then (1 : UInt8) else 0) != 0) =
      .ok settings.inBootloader
    cases settings.inBootloader <;> rfl

theorem defined_put (hmode : settings.powerupMode < 4) (setting : Setting) (value : setting.Value) :
    (setting.put settings value).powerupMode < 4 := by
  cases setting with
  | powerup => exact value.defined
  | fan | shipping | bootloader => exact hmode

/-- a setting that has been set has the value -/
theorem holds_put (hmode : settings.powerupMode < 4) (setting : Setting) (value : setting.Value) :
    setting.Holds (setting.put settings value) value := by
  refine ⟨defined_put hmode setting value, ?_⟩
  cases setting with
  | powerup => rfl
  | fan => cases value <;> rfl
  | shipping => cases value <;> rfl
  | bootloader => rfl

/-- and every other one has the value that it had -/
theorem Holds.put {value : setting.Value} (h : setting.Holds settings value)
    (hother : other ≠ setting) (new : other.Value) :
    setting.Holds (other.put settings new) value := by
  obtain ⟨hmode, rfl⟩ := h
  refine ⟨defined_put hmode other new, ?_⟩
  cases other <;> cases setting <;> first
    | rfl
    | exact absurd rfl hother

end Setting

/-! ## calls -/

inductive SettingCall where
  | set (setting : Setting) (value : setting.Value)
  | get (setting : Setting)

namespace SettingCall

def setting : SettingCall → Setting
  | .set setting _ => setting
  | .get setting => setting

@[reducible] def Result : SettingCall → Type
  | .set _ _ => Unit
  | .get setting => setting.Value

def query : (call : SettingCall) → Query call.Result
  | .set setting value => setting.setter value
  | .get setting => setting.getter

/-- the value that a call gives to a setting, if it does -/
def sets? (setting : Setting) : SettingCall → Option setting.Value
  | .set other value => if h : other = setting then some (h ▸ value) else none
  | .get _ => none

theorem sets?_other {call : SettingCall} {setting : Setting} (h : call.setting ≠ setting) :
    sets? setting call = none := by
  cases call with
  | set other value => exact dif_neg h
  | get other => rfl

/-- the value that the latest of some calls to set a setting gave to it -/
def latest? (setting : Setting) (calls : List SettingCall) : Option setting.Value :=
  (calls.filterMap (sets? setting)).getLast?

theorem latest?_cons (setting : Setting) (call : SettingCall) (calls : List SettingCall) :
    latest? setting (call :: calls) = (latest? setting calls).or (sets? setting call) := by
  unfold latest?
  cases h : sets? setting call with
  | none => rw [List.filterMap_cons_none h, Option.or_none]
  | some value => rw [List.filterMap_cons_some h, List.getLast?_cons, Option.or_some]

end SettingCall

namespace Link
variable {ι : Type} [DecidableEq ι]

/-- a caller makes a call -/
def make (ticket : ι) (timeout : Time) (link : Link ι) (call : SettingCall) :
    Link ι × Except Error call.Result :=
  link.hold ticket timeout call.query.talk.run

/-- the link after some calls -/
def makeAll (ticket : ι) (timeout : Time) (link : Link ι) (calls : List SettingCall) : Link ι :=
  calls.foldl (fun link call => (link.make ticket timeout call).1) link

section
variable {settings after : Device.Settings} {limit : Nat} {link : Link ι} {timeout : Time}
  (ticket : ι) (hlimit : 3 ≤ limit) (htimeout : 0 < timeout)
include hlimit htimeout

/-- a query whose request and reply are small -/
theorem Ready.talk {α : Type} (h : Ready settings limit link) {query : Query α} {reply : List UInt8}
    (hanswer : settings.answer query.request.command query.request.payload = (after, some reply))
    (hrequest : query.request.payload.length ≤ 2) (hreply : reply.length ≤ 2) :
    (link.hold ticket timeout query.talk.run).2 = query.read reply ∧
      Ready after limit (link.hold ticket timeout query.talk.run).1 := by
  have hfits : query.request.payload.length ≤ Frame.maxPayload :=
    Nat.le_trans hrequest (by decide)
  obtain ⟨hreplied, hready, -⟩ := h.call ticket htimeout hfits hanswer (by omega)
  have hresult : (link.hold ticket timeout query.talk.run).2 =
      query.result (link.call ticket timeout query.request).2 := rfl
  refine ⟨?_, hready⟩
  rw [hresult, hreplied]
  rfl

/-- a setting is set -/
theorem Ready.set (h : Ready settings limit link) (setting : Setting) (value : setting.Value) :
    (link.make ticket timeout (.set setting value)).2 = .ok () ∧
      Ready (setting.put settings value) limit
        (link.make ticket timeout (.set setting value)).1 := by
  obtain ⟨hresult, hready⟩ := h.talk ticket hlimit htimeout
    (Setting.answer_setter settings setting value) (setting.length_setter value) (Nat.zero_le 2)
  exact ⟨hresult.trans (setting.read_done value), hready⟩

/-- a setting is read -/
theorem Ready.get (h : Ready settings limit link) {setting : Setting} {value : setting.Value}
    (hholds : setting.Holds settings value) :
    (link.make ticket timeout (.get setting)).2 = .ok value ∧
      Ready settings limit (link.make ticket timeout (.get setting)).1 := by
  obtain ⟨hresult, hready⟩ := h.talk ticket hlimit htimeout
    (Setting.answer_getter settings setting) setting.length_getter (setting.length_reported settings)
  exact ⟨hresult.trans hholds.read_reported, hready⟩

/-- what one call leaves -/
theorem Ready.make (h : Ready settings limit link) {values : (setting : Setting) → setting.Value}
    (hholds : ∀ setting : Setting, setting.Holds settings (values setting)) (call : SettingCall) :
    ∃ after, Ready after limit (link.make ticket timeout call).1 ∧
      ∀ setting : Setting,
        setting.Holds after ((SettingCall.sets? setting call).getD (values setting)) := by
  cases call with
  | get setting =>
    exact ⟨settings, (h.get ticket hlimit htimeout (hholds setting)).2, hholds⟩
  | set setting value =>
    refine ⟨_, (h.set ticket hlimit htimeout setting value).2, fun other => ?_⟩
    obtain ⟨hmode, -⟩ := hholds other
    by_cases hsame : setting = other
    · subst hsame
      rw [SettingCall.sets?, dif_pos rfl]
      exact Setting.holds_put hmode setting value
    · rw [SettingCall.sets?, dif_neg hsame]
      exact (hholds other).put hsame value

/-- what any number of calls leave -/
theorem Ready.makeAll (h : Ready settings limit link)
    {values : (setting : Setting) → setting.Value}
    (hholds : ∀ setting : Setting, setting.Holds settings (values setting))
    (calls : List SettingCall) :
    ∃ after, Ready after limit (link.makeAll ticket timeout calls) ∧
      ∀ setting : Setting,
        setting.Holds after ((SettingCall.latest? setting calls).getD (values setting)) := by
  -- on the calls from the first: what it leaves is where the others begin
  induction calls generalizing link settings values with
  | nil => exact ⟨settings, h, hholds⟩
  | cons call rest ih =>
    obtain ⟨next, hready, hnext⟩ := h.make ticket hlimit htimeout hholds call
    obtain ⟨after, hafter, hlast⟩ := ih hready hnext
    refine ⟨after, hafter, fun setting => ?_⟩
    rw [SettingCall.latest?_cons]
    have hgetD : ((SettingCall.latest? setting rest).or (SettingCall.sets? setting call)).getD
        (values setting) = (SettingCall.latest? setting rest).getD
          ((SettingCall.sets? setting call).getD (values setting)) := by
      cases SettingCall.latest? setting rest <;> rfl
    rw [hgetD]
    exact hlast setting

end

/-- **Settings survive the round trip.**  A controller that answers at once is set and read through
the whole stack, from any state whose power-up mode is one, with any inbox, any timeout, and any frame
limit that its replies keep.  Whatever calls were made, the next one succeeds: a setter says so, and a
getter gives the value of the latest setter of its setting, or the one from the beginning if there was
none.  A call about one setting makes no difference to what the getter of another gives. -/
theorem settings_round_trip {settings : Device.Settings} (hmode : settings.powerupMode < 4)
    {limit : Nat} (hlimit : 3 ≤ limit) (room : Nat) (ticket : ι) {timeout : Time}
    (htimeout : 0 < timeout) (calls : List SettingCall) :
    let link : Link ι := (start { settings } limit room).makeAll ticket timeout calls
    (∀ setting value, (link.make ticket timeout (.set setting value)).2 = .ok ()) ∧
    (∀ setting, (link.make ticket timeout (.get setting)).2 =
      .ok ((SettingCall.latest? setting calls).getD (setting.held settings hmode))) ∧
    ∀ call setting, call.setting ≠ setting →
      ((link.make ticket timeout call).1.make ticket timeout (.get setting)).2 =
        (link.make ticket timeout (.get setting)).2 := by
  intro link
  have hsmall : 3 ≤ min limit Frame.maxLength := Nat.le_min.mpr ⟨hlimit, by decide⟩
  have hstart : Ready settings (min limit Frame.maxLength) (start { settings } limit room : Link ι) :=
    ready_start settings (Nat.le_trans (by decide) hlimit) room
  have hheld : ∀ setting : Setting, setting.Holds settings (setting.held settings hmode) :=
    fun setting => ⟨hmode, rfl⟩
  obtain ⟨now, hready, hholds⟩ := hstart.makeAll ticket hsmall htimeout hheld calls
  have hget := fun setting => (hready.get ticket hsmall htimeout (hholds setting)).1
  refine ⟨fun setting value => ?_, hget, fun call setting hother => ?_⟩
  · exact (hready.set ticket hsmall htimeout setting value).1
  · obtain ⟨after, hafter, hlast⟩ := hready.make ticket hsmall htimeout hholds call
    have hsame := hlast setting
    rw [SettingCall.sets?_other hother, Option.getD_none] at hsame
    rw [hget setting, (hafter.get ticket hsmall htimeout hsame).1]

/-- the fan was set twice, and the power-up mode not at all -/
theorem settings_round_trip_fan_and_powerup :
    let calls : List SettingCall :=
      [.set .fan .auto, .set .shipping true, .set .fan (.fixed 90), .get .bootloader]
    let link : Link Nat := (start { settings := { powerupMode := 2 } } 3 1).makeAll 0 1 calls
    (link.make 0 1 (.get .fan)).2 = .ok (.fixed 90) ∧
      (link.make 0 1 (.get .powerup)).2 = .ok ⟨2, by decide⟩ ∧
      (link.make 0 1 (.set .bootloader true)).2 = .ok () := by
  intro calls link
  have hmode : ({ powerupMode := 2 } : Device.Settings).powerupMode < 4 := by decide
  obtain ⟨hset, hget, -⟩ :=
    settings_round_trip hmode (Nat.le_refl 3) 1 (0 : Nat) Nat.zero_lt_one calls
  exact ⟨hget .fan, hget .powerup, hset .bootloader true⟩

end Link
end CameraPower
