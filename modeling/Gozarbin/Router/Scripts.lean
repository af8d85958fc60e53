import Gozarbin.Lib.Shell

/-! # The scripts of the router service

`firewall.sh`, `dns.sh`, the `reconcile` of `monitor.sh` and the `stop_service` of the init
script, command by command. Commands of the system, and helpers that the scripts only start, are
not taken apart. A loop `while ip rule del …; do :; done` is one command whose status is not
looked at.
-/

namespace Gozarbin.Router

open Shell (Sh)

inductive Port where
  | tproxy
  | socks
  | dns
  deriving DecidableEq

/-- The commands of `ip`, each for IPv4 or IPv6. -/
inductive IpCmd where
  | addEscape (six : Bool)
  | delEscape (six : Bool)
  | addTproxyRule (six : Bool)
  | delTproxyRule (six : Bool)
  | delOldRule (six : Bool)
  | addRoute (six : Bool)
  | flushRoutes (six : Bool)
  deriving DecidableEq

inductive Cmd where
  | logger
  | readPort (port : Port)
  -- monitor.sh
  | wantedTransparent
  | listening (port : Port)
  | redirectUp
  | clearMissing
  | countMissing
  | missingThrice
  -- init.d
  | removeWanted
  | removeDnsWanted
  | removeReason
  | stopPsiphon
  -- dns.sh
  | dnsWanted
  | complain
  | setChanged (value : Bool)
  | changed
  | snippetCurrent (dir : String)
  | writeSnippet (dir : String)
  | snippetExists (dir : String)
  | removeSnippet (dir : String)
  | dnsmasqExecutable
  | dnsmasqRestart
  -- firewall.sh
  | sourceFunctions
  | singboxPath
  | wantAccounting
  | wantedAll
  | loadConfig
  | modeTproxy
  | modeTun
  | accountingOn
  | accountingOff
  | historyExecutable
  | historySample
  | historyReset
  | nftDelete
  | nftCheck
  | nftLoad
  | makeRunDir
  | writeRules
  | removeNftFile
  | removeSingboxFile
  | removeRulesetDir
  | markSet
  | tproxyMarkSet
  | routeTableSet
  | ip (command : IpCmd)
  deriving DecidableEq

instance : Coe Cmd (Sh Cmd) := ⟨.cmd⟩

def orTrue (sh : Sh Cmd) : Sh Cmd := .or sh .pass

def startTunEscape : Sh Cmd :=
  .fn (.block [orTrue (Cmd.ip (.addEscape false)), orTrue (Cmd.ip (.addEscape true))])

def stopTunEscape : Sh Cmd :=
  .fn (.block [orTrue (Cmd.ip (.delEscape false)), orTrue (Cmd.ip (.delEscape true))])

def writeRules : Sh Cmd := .fn (.block [Cmd.makeRunDir, Cmd.writeRules])

def stopRules : Sh Cmd :=
  .fn (.block [
    .cond Cmd.historyExecutable (.block [Cmd.historySample, Cmd.historyReset]) .pass,
    orTrue Cmd.nftDelete,
    .cond Cmd.markSet stopTunEscape .pass,
    .cond (.and Cmd.tproxyMarkSet Cmd.routeTableSet)
      (.block [
        orTrue (Cmd.ip (.delTproxyRule false)),
        orTrue (Cmd.ip (.delTproxyRule true)),
        orTrue (Cmd.ip (.delOldRule false)),
        orTrue (Cmd.ip (.delOldRule true)),
        orTrue (Cmd.ip (.flushRoutes false)),
        orTrue (Cmd.ip (.flushRoutes true))])
      .pass,
    Cmd.removeNftFile])

def startRules : Sh Cmd :=
  .fn (.block [
    stopRules,
    writeRules,
    .cond (.not Cmd.nftCheck) (.block [Cmd.logger, Cmd.accountingOff, writeRules]) .pass,
    Cmd.nftCheck,
    Cmd.nftLoad,
    .or (.and Cmd.wantedAll Cmd.modeTproxy) (.ret 0),
    orTrue (Cmd.ip (.addTproxyRule false)),
    orTrue (Cmd.ip (.addRoute false)),
    orTrue (Cmd.ip (.addTproxyRule true)),
    orTrue (Cmd.ip (.addRoute true))])

inductive FirewallArg where
  | start
  | accounting
  | stop
  | reload

def FirewallArg.body : FirewallArg → Sh Cmd
  | .start | .reload => .block [startRules, orTrue (.and Cmd.modeTun startTunEscape)]
  | .accounting =>
    .block [Cmd.wantAccounting, .or (.and Cmd.accountingOn startRules) stopRules]
  | .stop => .block [stopRules, Cmd.removeSingboxFile, Cmd.removeRulesetDir]

def firewallSh (arg : FirewallArg) : Sh Cmd :=
  .script true (.block [
    Cmd.sourceFunctions,
    -- A plain assignment has the status of the command in it.
    Cmd.singboxPath,
    Cmd.loadConfig,
    arg.body])

def restartDnsmasq : Sh Cmd :=
  .fn (.block [.and Cmd.dnsmasqExecutable Cmd.dnsmasqRestart, .ret 0])

def off (dirs : List String) : Sh Cmd :=
  .fn (.block [
    Cmd.setChanged false,
    .each dirs fun dir =>
      .cond (Cmd.snippetExists dir) (.block [Cmd.removeSnippet dir, Cmd.setChanged true]) .pass,
    .and Cmd.changed restartDnsmasq,
    .ret 0])

def on (dirs : List String) : Sh Cmd :=
  .fn (.block [
    Cmd.setChanged false,
    .or Cmd.dnsWanted (.block [Cmd.complain, .ret 1]),
    Cmd.readPort .dns,
    .each dirs fun dir =>
      .cond (Cmd.snippetCurrent dir) .pass
        (.block [Cmd.writeSnippet dir, Cmd.setChanged true]),
    .and Cmd.changed restartDnsmasq,
    .or Cmd.dnsWanted (.block [off dirs, .ret 1]),
    .ret 0])

def dnsUp (dirs : List String) : Sh Cmd :=
  .fn (.block [.each dirs fun dir => .and (Cmd.snippetExists dir) (.ret 0), .ret 1])

def dnsSh (function : Sh Cmd) : Sh Cmd := .script false function

def reconcile (dirs : List String) : Sh Cmd :=
  .fn (.block [
    .or Cmd.wantedTransparent (.ret 0),
    Cmd.readPort .tproxy,
    Cmd.readPort .socks,
    Cmd.readPort .dns,
    .cond (.and (Cmd.listening .tproxy) (Cmd.listening .socks))
      (.block [
        Cmd.clearMissing,
        .cond (.not Cmd.redirectUp) (.block [Cmd.logger, orTrue (firewallSh .start)]) .pass,
        .cond (.and Cmd.dnsWanted (Cmd.listening .dns))
          (.cond (.not (dnsUp dirs)) (.block [Cmd.logger, dnsSh (on dirs)]) .pass)
          (.cond (dnsUp dirs) (.block [Cmd.logger, dnsSh (off dirs)]) .pass),
        .ret 0])
      .pass,
    .or (.or Cmd.redirectUp (dnsUp dirs)) (.block [Cmd.clearMissing, .ret 0]),
    Cmd.countMissing,
    .or Cmd.missingThrice (.ret 0),
    Cmd.clearMissing,
    Cmd.logger,
    dnsSh (off dirs),
    orTrue (firewallSh .accounting)])

def stopService (dirs : List String) : Sh Cmd :=
  .fn (.block [
    Cmd.removeWanted,
    Cmd.removeDnsWanted,
    dnsSh (off dirs),
    firewallSh .stop,
    Cmd.removeReason,
    Cmd.stopPsiphon])

end Gozarbin.Router
