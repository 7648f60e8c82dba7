/-
Built-in signatures: the assertion, verification and expectation methods of common testing frameworks. Chained calls
usually have an unknown owner and match by name alone, so of a fluent interface only the entry points and the final
verbs are listed.
-/
import CallLint.Signature.Catalog

namespace CallLint

/-- the assertion methods of one testing framework -/
structure Framework where
  label : String
  signatures : List Signature
deriving DecidableEq, Repr

namespace Framework

def all : List Framework :=
  [
    ⟨"JUnit 3", [
      .starting "junit.framework.Assert" "assert",
      .starting "junit.framework.Assert" "fail",
      .starting "junit.framework.TestCase" "assert",
      .starting "junit.framework.TestCase" "fail"]⟩,
    ⟨"JUnit 4", [
      .starting "org.junit.Assert" "assert",
      .starting "org.junit.Assert" "fail",
      .starting "org.junit.rules.ExpectedException" "expect",
      .anyArgs "org.junit.rules.ErrorCollector" "checkThat",
      .anyArgs "org.junit.rules.ErrorCollector" "checkSucceeds"]⟩,
    ⟨"JUnit 5", [
      .starting "org.junit.jupiter.api.Assertions" "assert",
      .starting "org.junit.jupiter.api.Assertions" "fail"]⟩,
    ⟨"TestNG", [
      .starting "org.testng.Assert" "assert",
      .starting "org.testng.Assert" "fail",
      .anyArgs "org.testng.Assert" "expectThrows",
      .starting "org.testng.asserts.Assertion" "assert",
      .starting "org.testng.asserts.SoftAssert" "assert"]⟩,
    ⟨"AssertJ", [
      .starting "org.assertj.core.api.Assertions" "assertThat",
      .starting "org.assertj.core.api.Assertions" "fail",
      .anyArgs "org.assertj.core.api.Assertions" "then",
      .starting "org.assertj.core.api.Fail" "fail",
      .anyArgs "org.assertj.core.api.BDDAssertions" "then",
      .starting "org.assertj.core.api.BDDAssertions" "thenThrownBy",
      .starting "org.assertj.core.api.WithAssertions" "assertThat",
      .noArgs "org.assertj.core.api.SoftAssertions" "assertAll",
      .starting "org.assertj.core.api.SoftAssertions" "assertThat",
      .anyArgs "org.assertj.core.api.JUnitSoftAssertions" "assertThat"]⟩,
    ⟨"Hamcrest", [
      .anyArgs "org.hamcrest.MatcherAssert" "assertThat"]⟩,
    ⟨"Fest", [
      .anyArgs "org.fest.assertions.Assertions" "assertThat",
      .starting "org.fest.assertions.Fail" "fail",
      .anyArgs "org.fest.assertions.api.Assertions" "assertThat"]⟩,
    ⟨"Spring", [
      .anyArgs "org.springframework.test.web.servlet.ResultActions" "andExpect",
      .starting "org.springframework.test.web.client.MockRestServiceServer" "verify",
      .starting "org.springframework.test.util.AssertionErrors" "assert",
      .starting "org.springframework.test.util.AssertionErrors" "fail",
      .starting "org.springframework.test.web.reactive.server.WebTestClient$ResponseSpec" "expect"]⟩,
    ⟨"EasyMock", [
      .starting "org.easymock.EasyMock" "verify",
      .starting "org.easymock.IMocksControl" "verify",
      .starting "org.easymock.EasyMockSupport" "verify"]⟩,
    ⟨"Truth", [
      .starting "com.google.common.truth.Truth" "assert",
      .starting "com.google.common.truth.Truth8" "assert",
      .anyArgs "com.google.common.truth.StandardSubjectBuilder" "that"]⟩,
    ⟨"ReactiveX 1", [
      .starting "rx.observers.TestSubscriber" "assert",
      .starting "rx.observers.AssertableSubscriber" "assert"]⟩,
    ⟨"ReactiveX 2", [
      .starting "io.reactivex.observers.BaseTestConsumer" "assert",
      .starting "io.reactivex.observers.TestObserver" "assert",
      .starting "io.reactivex.subscribers.TestSubscriber" "assert"]⟩,
    ⟨"RestAssured", [
      .anyArgs "io.restassured.response.ValidatableResponseOptions" "statusCode",
      .anyArgs "io.restassured.response.ValidatableResponseOptions" "body",
      .starting "io.restassured.response.ValidatableResponseOptions" "content",
      .starting "io.restassured.response.ValidatableResponseOptions" "header",
      .starting "io.restassured.response.ValidatableResponseOptions" "cookie",
      .anyArgs "io.restassured.response.ValidatableResponseOptions" "time",
      .anyArgs "com.jayway.restassured.response.ValidatableResponseOptions" "statusCode",
      .anyArgs "com.jayway.restassured.response.ValidatableResponseOptions" "body",
      .starting "com.jayway.restassured.response.ValidatableResponseOptions" "content",
      .starting "com.jayway.restassured.response.ValidatableResponseOptions" "header"]⟩,
    ⟨"Mockito", [
      .starting "org.mockito.Mockito" "verify",
      .noArgs "org.mockito.Mockito" "validateMockitoUsage",
      .starting "org.mockito.InOrder" "verify",
      .starting "org.mockito.BDDMockito$Then" "should"]⟩,
    ⟨"JMock", [
      .noArgs "org.jmock.Mockery" "assertIsSatisfied",
      .anyArgs "org.jmock.Mockery" "checking",
      .noArgs "org.jmock.junit5.JUnit5Mockery" "assertIsSatisfied"]⟩,
    ⟨"WireMock", [
      .starting "com.github.tomakehurst.wiremock.client.WireMock" "verify",
      .starting "com.github.tomakehurst.wiremock.WireMockServer" "verify"]⟩,
    ⟨"Vert.x", [
      .starting "io.vertx.ext.unit.TestContext" "assert",
      .starting "io.vertx.ext.unit.TestContext" "fail",
      .anyArgs "io.vertx.junit5.VertxTestContext" "verify",
      .starting "io.vertx.junit5.VertxTestContext" "fail"]⟩,
    ⟨"Selenide", [
      .starting "com.codeborne.selenide.SelenideElement" "should",
      .starting "com.codeborne.selenide.ElementsCollection" "should"]⟩,
    ⟨"JMockit", [
      .anyArgs "mockit.Verifications" "<init>",
      .anyArgs "mockit.VerificationsInOrder" "<init>",
      .anyArgs "mockit.FullVerifications" "<init>",
      .anyArgs "mockit.FullVerificationsInOrder" "<init>"]⟩,
    ⟨"Awaitility", [
      .starting "org.awaitility.core.ConditionFactory" "until",
      .starting "com.jayway.awaitility.core.ConditionFactory" "until"]⟩
  ]

/-- the framework with a given label -/
def named? (label : String) : Option Framework :=
  all.find? (·.label == label)

end Framework

/-- every signature of every framework -/
def Catalog.builtin : Catalog :=
  Catalog.ofList (Framework.all.flatMap (·.signatures))

end CallLint
