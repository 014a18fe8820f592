import YoruSpeech.Session.OutcomeTheorems
import YoruSpeech.Session.PartialTheorems
import YoruSpeech.Ipc.FramingTheorems
import YoruSpeech.App.DeliveryTheorems
import YoruSpeech.Ipc.CommandTheorems
import YoruSpeech.App.IpcServiceTheorems
import YoruSpeech.Ipc.SocketPathTheorems
import YoruSpeech.App.ProcessesTheorems
import YoruSpeech.App.RunLoopTheorems
import YoruSpeech.App.RefusalTheorems
import YoruSpeech.Session.CaptureTheorems
import YoruSpeech.App.ToggleTheorems
import YoruSpeech.Session.SegmentTheorems
import YoruSpeech.Config.UpdateTheorems
import YoruSpeech.Session.PositionTheorems
import YoruSpeech.Clipboard.CopyTheorems
import YoruSpeech.Session.DeviceLossTheorems
import YoruSpeech.App.SetConfigTheorems
import YoruSpeech.Speech.ModelRepositoryTheorems
import YoruSpeech.App.ProgressTheorems
import YoruSpeech.App.TranscriptTheorems
import YoruSpeech.App.ConversationTheorems
import YoruSpeech.App.StateTheorems
import YoruSpeech.App.DictateTheorems
