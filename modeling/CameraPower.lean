import CameraPower.Main
import CameraPower.Proofs.BootloaderSafety
import CameraPower.Proofs.DecoderCompleteness
import CameraPower.Proofs.DecoderSoundness
import CameraPower.Proofs.WholeFrames
import CameraPower.Proofs.DamagedFrames
import CameraPower.Proofs.FlashImage
import CameraPower.Proofs.PlanArithmetic
import CameraPower.Proofs.UpdateCourse
import CameraPower.Proofs.Checksum
import CameraPower.Proofs.ChecksumDivision
import CameraPower.Inbox.Wait
import CameraPower.Proofs.Resynchronization
import CameraPower.Proofs.EngineHistory
import CameraPower.Proofs.TakingTurns
import CameraPower.Proofs.StaleReplies
import CameraPower.Proofs.InboxRing
import CameraPower.Proofs.ReceivedFrames
import CameraPower.Proofs.LostLink
import CameraPower.Proofs.AwaitedReply
import CameraPower.Proofs.CallInTime
import CameraPower.Proofs.ClientLines
import CameraPower.Proofs.SessionLog
import CameraPower.Proofs.SessionTranscript
import CameraPower.Proofs.SessionAlarms
import CameraPower.Proofs.ShutdownOnce
import CameraPower.Proofs.KeptSamples
import CameraPower.Proofs.PromptReply
import CameraPower.Proofs.SettingsRoundTrip
import CameraPower.Proofs.SessionTasks
import CameraPower.Proofs.ClientSlots
import CameraPower.Proofs.CheckedStart
import CameraPower.Proofs.HexFormat
import CameraPower.Proofs.HexRoundTrip
import CameraPower.Proofs.HexLines
import CameraPower.Proofs.HexDamage
import CameraPower.Proofs.PageSplit
import CameraPower.Proofs.LineCalls
import CameraPower.Proofs.Decimals
import CameraPower.Proofs.TrimmedText
import CameraPower.Proofs.ClientVocabulary
import CameraPower.Proofs.FanSettings
import CameraPower.Proofs.LogNames
import CameraPower.Proofs.LogRotation
import CameraPower.Proofs.BatteryReading
import CameraPower.Proofs.DecoderRegisters
import CameraPower.Proofs.InboxAccount
import CameraPower.Proofs.PollRhythm
import CameraPower.Proofs.SoundSleep
